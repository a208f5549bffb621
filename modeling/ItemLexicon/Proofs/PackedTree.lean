import ItemLexicon.Loading.Files
import ItemLexicon.Platform.Table
import ItemLexicon.Proofs.WalkOrder
import Mathlib.Data.List.Nodup

namespace ItemLexicon

open FileTree

deriving instance DecidableEq for Source

def Source.isDirectory (s : Source) : Bool := s.name.toList.getLast? = some '/'

/-- The entries of an archive that are no directories are the files of a tree. -/
def FileTree.Packs (entries : List Source) (es : List (String × FileTree)) : Prop :=
  (entries.filter fun s => !s.isDirectory).Perm (filesOf "" es)

/-- Directories that are loaded alike from an archive. -/
structure FileTree.IsPortable (es : List (String × FileTree)) : Prop where
  shown : ∀ s ∈ sourcesOf "" es, endsHidden s.name = false
  inOrder : ∀ s ∈ sourcesOf "" es, ∀ t ∈ sourcesOf "" es, ¬Overtakes t.name s.name

namespace Source

theorem isDirectory_of_isListed {s : Source} (h : isListed s.name = true) :
    s.isDirectory = false := by
  rw [isListed, Bool.and_eq_true, List.isSuffixOf_iff_suffix] at h
  obtain ⟨⟨u, eq⟩, -⟩ := h
  simp [isDirectory, ← eq]

theorem pairwise_mergeSort (ss : List Source) :
    (ss.mergeSort fun s t => s.name ≤ t.name).Pairwise fun s t => s.name ≤ t.name := by
  refine (List.pairwise_mergeSort (fun r s t rs st => ?_) (fun s t => ?_) ss).imp of_decide_eq_true
  · simp only [decide_eq_true_eq] at rs st ⊢
    exact String.le_trans rs st
  · simp only [Bool.or_eq_true, decide_eq_true_eq]
    exact String.le_total _ _

theorem mergeSort_eq_of_perm {ss ts : List Source} (h : ss.Perm ts)
    (distinct : ts.Pairwise fun s t => s.name ≠ t.name) :
    (ss.mergeSort fun s t => s.name ≤ t.name) = ts.mergeSort fun s t => s.name ≤ t.name := by
  have inTs : (ts.mergeSort fun s t => s.name ≤ t.name).Perm ts := List.mergeSort_perm ts _
  have perm : (ss.mergeSort fun s t => s.name ≤ t.name).Perm
      (ts.mergeSort fun s t => s.name ≤ t.name) :=
    (List.mergeSort_perm ss _).trans (h.trans inTs.symm)
  refine perm.eq_of_pairwise (fun s t hs ht st ts => ?_) (pairwise_mergeSort ss)
    (pairwise_mergeSort ts)
  exact List.inj_on_of_nodup_map (List.pairwise_map.mpr distinct)
    (inTs.mem_iff.mp (perm.mem_iff.mp hs)) (inTs.mem_iff.mp ht) (String.le_antisymm st ts)

variable {entries : List Source} {es : List (String × FileTree)}

theorem ofArchive_eq (proper : (directory es).IsProper) (packed : Packs entries es) :
    ofArchive entries = ((sourcesOf "" es).filter fun s => !endsHidden s.name).mergeSort
      fun s t => s.name ≤ t.name := by
  have files : (entries.filter fun s => isListed s.name).Perm
      ((filesOf "" es).filter fun s => isListed s.name) := by
    have listed := packed.filter fun s => isListed s.name
    rw [List.filter_filter] at listed
    have same : entries.filter (fun s => isListed s.name && !s.isDirectory) =
        entries.filter fun s => isListed s.name := by
      refine List.filter_congr fun s _ => ?_
      cases found : isListed s.name with
      | false => rfl
      | true => rw [isDirectory_of_isListed found]; rfl
    rwa [same] at listed
  rw [proper.filter_filesOf] at files
  exact mergeSort_eq_of_perm files ((proper.pairwise_sourcesOf.imp Before.ne).filter _)

end Source

theorem FileTree.isPortable_iff {es : List (String × FileTree)}
    (proper : (directory es).IsProper) : IsPortable es ↔
      (∀ s ∈ sourcesOf "" es, endsHidden s.name = false) ∧
        (sourcesOf "" es).Pairwise fun s t => s.name ≤ t.name := by
  rw [pairwise_le_iff proper.pairwise_sourcesOf]
  exact ⟨fun h => ⟨h.shown, h.inOrder⟩, fun ⟨shown, inOrder⟩ => ⟨shown, inOrder⟩⟩

theorem Source.ofArchive_eq_sourcesOf_iff {entries : List Source} {es : List (String × FileTree)}
    (proper : (directory es).IsProper) (packed : Packs entries es) :
    ofArchive entries = sourcesOf "" es ↔ IsPortable es := by
  rw [isPortable_iff proper]
  constructor
  · intro same
    refine ⟨fun s hs => ?_, ?_⟩
    · rw [← same, ofArchive_eq proper packed, (List.mergeSort_perm _ _).mem_iff] at hs
      simpa using (List.mem_filter.mp hs).2
    · rw [← same]
      exact pairwise_mergeSort _
  · rintro ⟨shown, ordered⟩
    rw [ofArchive_eq proper packed, List.filter_eq_self.mpr fun s hs => by rw [shown s hs]; rfl]
    exact List.mergeSort_of_pairwise (ordered.imp decide_eq_true)

namespace Zip

def littleEndian : Nat → Nat → List UInt8
  | 0, _ => []
  | size + 1, n => .ofNat n :: littleEndian size (n / 256)

def ascii (text : String) : List UInt8 := text.toList.map fun c => .ofNat c.toNat

def storedFields (name content : List UInt8) : List UInt8 :=
  littleEndian 2 20 ++ littleEndian 8 0 ++ littleEndian 4 (Bytes.checksum content).toNat ++
    littleEndian 4 content.length ++ littleEndian 4 content.length ++
    littleEndian 2 name.length ++ littleEndian 2 0

def storedEntry (name content : List UInt8) : List UInt8 :=
  entryMark ++ storedFields name content ++ name ++ content

def storedHeader (name content : List UInt8) (place : Nat) : List UInt8 :=
  directoryMark ++ littleEndian 2 20 ++ storedFields name content ++ littleEndian 10 0 ++
    littleEndian 4 place ++ name

def storedParts : Nat → List (String × String) → List UInt8 × List UInt8
  | _, [] => ([], [])
  | place, (name, text) :: files =>
    let entry := storedEntry (ascii name) (ascii text)
    let (entries, headers) := storedParts (place + entry.length) files
    (entry ++ entries, storedHeader (ascii name) (ascii text) place ++ headers)

def stored (files : List (String × String)) : List UInt8 :=
  let (entries, headers) := storedParts 0 files
  entries ++ headers ++ endMark ++ littleEndian 4 0 ++ littleEndian 2 files.length ++
    littleEndian 2 files.length ++ littleEndian 4 headers.length ++
    littleEndian 4 entries.length ++ littleEndian 2 0

end Zip

namespace Loader

/-- An archive of the files of a directory gives back what a walk finds there just if the directory
is portable, and then both loads end alike. -/
theorem directory_archiveBytes {root : FileTree} (proper : root.IsProper) {path : String}
    {es : List (String × FileTree)} (found : root.at? path = some (.directory es))
    {bs : List UInt8} {entries : List Source} (read : Zip.entries bs = .ok entries)
    (packed : Packs entries es) (l : Loader) :
    (Source.ofArchive entries = sourcesOf "" es ↔ IsPortable es) ∧
      (IsPortable es →
        (l.directory root path).1 = (l.archiveBytes bs).1 ∧
        (l.directory root path).2.registry = (l.archiveBytes bs).2.registry ∧
        ∃ new, (l.archiveBytes bs).2.diagnostics = l.diagnostics ++ new ∧
          (l.directory root path).2.diagnostics =
            l.diagnostics ++ new.map (·.renamed (join path))) ∧
      ((∀ s ∈ filesOf "" es, ∃ text, s.text = .ok text) →
        (l.directory root path).1 = none ∧ (l.archiveBytes bs).1 = none) := by
  have below := proper.at? found
  have same := Source.ofArchive_eq_sourcesOf_iff below packed
  have walk : l.directory root path =
      l.sources ((sourcesOf "" es).map (·.renamed (join path))) := by
    rw [directory, found]
    exact congrArg l.sources (sourcesOf_eq_map path es)
  have archive : l.archiveBytes bs = l.sources (Source.ofArchive entries) := by
    rw [archiveBytes, read]
  refine ⟨same, fun portable => ?_, fun texts => ?_⟩
  · rw [walk, archive, same.mpr portable]
    exact sources_renamed l (join path) (sourcesOf "" es)
  · have found : ∀ s ∈ sourcesOf "" es, ∃ text, s.text = .ok text := fun s hs =>
      texts s ((sourcesOf_sublist "" es).subset hs)
    constructor
    · rw [walk, (sources_renamed l (join path) _).1]
      exact sources_eq_none l found
    · rw [archive, Source.ofArchive_eq below packed]
      refine sources_eq_none l fun s hs => found s ?_
      exact (List.mem_filter.mp ((List.mergeSort_perm _ _).mem_iff.mp hs)).1

theorem directory_archiveBytes_of_nested :
    let text := "s:\n x=d\n y=\n"
    let es := [("b", FileTree.directory [("c.sk", .file (Zip.ascii text))])]
    let root := (FileTree.directory []).write "pack/b/c.sk" (some (Zip.ascii text))
    let bs := Zip.stored [("b/", ""), ("b/c.sk", text)]
    let l := start (.empty (.build ⟨[1, 20, 4]⟩ false [⟨"minecraft:d", true, 0⟩] [])) []
    root.IsProper ∧ root.at? "pack" = some (.directory es) ∧
      Zip.entries bs = .ok [⟨"b/", .ok ""⟩, ⟨"b/c.sk", .ok text⟩] ∧
      Packs [⟨"b/", .ok ""⟩, ⟨"b/c.sk", .ok text⟩] es ∧ IsPortable es ∧
      (l.archiveBytes bs).1 = none ∧
      (l.directory root "pack").2.registry = (l.archiveBytes bs).2.registry := by
  intro text es root bs l
  have proper : root.IsProper := isProper_empty.write _ _
  have found : root.at? "pack" = some (.directory es) := by rfl
  have read : Zip.entries bs = .ok [⟨"b/", .ok ""⟩, ⟨"b/c.sk", .ok text⟩] := by decide +kernel
  have files : filesOf "" es = [⟨"b/c.sk", .ok text⟩] := by decide +kernel
  have walk : sourcesOf "" es = [⟨"b/c.sk", .ok text⟩] := by decide +kernel
  have packed : Packs [⟨"b/", .ok ""⟩, ⟨"b/c.sk", .ok text⟩] es := by
    rw [Packs, files]
    exact .of_eq (by decide +kernel)
  have portable : IsPortable es := by
    rw [isPortable_iff (proper.at? found), walk]
    exact ⟨by decide +kernel, List.pairwise_singleton _ _⟩
  obtain ⟨-, alike, readable⟩ := directory_archiveBytes proper found read packed l
  have texts : ∀ s ∈ filesOf "" es, ∃ text, s.text = .ok text := by
    rw [files]
    exact List.forall_mem_singleton.mpr ⟨text, rfl⟩
  exact ⟨proper, found, read, packed, portable, (readable texts).2, (alike portable).2.1⟩

theorem directory_archiveBytes_differ :
    let files := [(".c.sk", "s:\n y=d\n"), ("a.sk", "s:\n x=d\n"), ("a/b.sk", "s:\n x=e\n")]
    let file := fun text => FileTree.file (Zip.ascii text)
    let es := [(".c.sk", file "s:\n y=d\n"),
      ("a", FileTree.directory [("b.sk", file "s:\n x=e\n")]), ("a.sk", file "s:\n x=d\n")]
    let entries : List Source := files.map fun f => ⟨f.1, .ok f.2⟩
    let bs := Zip.stored files
    let l := start (.empty (.build ⟨[1, 20, 4]⟩ false
      [⟨"minecraft:d", true, 0⟩, ⟨"minecraft:e", true, 0⟩] [])) []
    let items (r : Registry) : Option (List (Option Nat)) :=
      (r.entries? "x").map fun es => es.map (·.item.material)
    (FileTree.directory es).IsProper ∧ Zip.entries bs = .ok entries ∧ Packs entries es ∧
      (l.directory (.directory es) "").1 = none ∧ (l.archiveBytes bs).1 = none ∧
      (l.directory (.directory es) "").2.registry.contains "y" = true ∧
      (l.archiveBytes bs).2.registry.contains "y" = false ∧
      items (l.directory (.directory es) "").2.registry = some [some 1, some 0] ∧
      items (l.archiveBytes bs).2.registry = some [some 0, some 1] := by
  intro files file es entries bs l items
  have inner : (FileTree.directory [("b.sk", file "s:\n x=e\n")]).IsProper :=
    .directory _ (List.pairwise_singleton _ _)
      (List.forall_mem_singleton.mpr ⟨by decide, by decide⟩)
      (List.forall_mem_singleton.mpr (.file _))
  have proper : (FileTree.directory es).IsProper := by
    refine .directory _ (by rw [Dictionary.Sorted]; decide +kernel) ?_ ?_
    · simp only [es, List.forall_mem_cons]
      exact ⟨⟨by decide, by decide⟩, ⟨by decide, by decide⟩, ⟨by decide, by decide⟩, nofun⟩
    · simp only [es, List.forall_mem_cons]
      exact ⟨.file _, inner, .file _, nofun⟩
  have read : Zip.entries bs = .ok entries := by decide +kernel
  have packed : Packs entries es := by
    rw [Packs]
    decide +kernel
  have listed : entries.filter (fun s => Source.isListed s.name) =
      [⟨"a.sk", .ok "s:\n x=d\n"⟩, ⟨"a/b.sk", .ok "s:\n x=e\n"⟩] := by decide +kernel
  have archive : l.archiveBytes bs =
      l.sources [⟨"a.sk", .ok "s:\n x=d\n"⟩, ⟨"a/b.sk", .ok "s:\n x=e\n"⟩] := by
    rw [archiveBytes, read]
    simp only [Source.ofArchive, listed]
    rw [List.mergeSort_of_pairwise (by decide +kernel)]
  rw [archive]
  exact ⟨proper, read, packed, by decide +kernel, by decide +kernel, by decide +kernel,
    by decide +kernel, by decide +kernel, by decide +kernel⟩

end Loader

end ItemLexicon
