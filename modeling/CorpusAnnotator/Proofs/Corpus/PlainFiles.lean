import CorpusAnnotator.Proofs.Corpus.Reading
import CorpusAnnotator.Proofs.Files.PathPatterns

/-! A file that is no archive, read by its path. The path is taken for a pattern: it matches the file
and nothing else if it has no wildcards, and the file among others if it has some. With brackets it
stands for other names than its own. -/
namespace CorpusAnnotator.Corpus

open Files (Tree)
open Files.Glob (Literal Unbracketed idles)
open Results

variable {tree : Tree} {path : String} {bytes : List UInt8}

theorem archive?_of_plain_file (h : tree.read path = .ok bytes)
    (hplain : Archive.decode? bytes = none) : archive? tree path = none := by
  rw [archive?, h]
  exact hplain

theorem fileAt?_of_node? {p : Files.Place} {executable : Bool}
    (h : tree.node? p = some (.file bytes executable)) : fileAt? tree p = some bytes := by
  rw [fileAt?, h]

/-- A file that is no archive is its own single document if its path has no wildcards and brackets,
and one of the documents if it has wildcards. With any path the documents are those of the files that
match the path as a pattern. The path may not take an empty step while it stays where it starts. -/
theorem read_plain_file (h : tree.read path = .ok bytes) (hplain : Archive.decode? bytes = none) :
    (Literal path.toList → idles path.toList = false → read tree path = .ok ⟨path, [bytes]⟩) ∧
      (Unbracketed path.toList → idles path.toList = false →
        ∃ documents, read tree path = .ok ⟨path, documents⟩ ∧ bytes ∈ documents) ∧
      ∀ c, read tree path = .ok c ↔ ∃ pattern, Files.Glob.Pattern.read path = .ok pattern ∧
        c = ⟨path, (pattern.expand tree).filterMap (fileAt? tree)⟩ ∧ c.documents ≠ [] := by
  have harchive := archive?_of_plain_file h hplain
  obtain ⟨p, executable, hresolve, hnode⟩ := Tree.read_eq_ok_iff.mp h
  have hfile := fileAt?_of_node? hnode
  refine ⟨fun hliteral hidles => ?_, fun hunbracketed hidles => ?_, fun c =>
    read_of_archive?_eq_none harchive⟩
  · obtain ⟨pattern, hread, hexpand⟩ := Files.Glob.expand_of_literal hliteral hidles hresolve hnode
    have hdocuments : filesAt tree pattern = [bytes] := by
      rw [filesAt, hexpand, List.filterMap_cons, hfile]
      rfl
    refine (read_of_archive?_eq_none harchive).mpr ⟨pattern, hread, ?_, List.cons_ne_nil _ _⟩
    rw [hdocuments]
  · obtain ⟨pattern, hread, hmem⟩ :=
      Files.Glob.mem_expand_of_unbracketed hunbracketed hidles hresolve hnode
    have hdocument : bytes ∈ filesAt tree pattern := List.mem_filterMap.mpr ⟨p, hmem, hfile⟩
    exact ⟨filesAt tree pattern, (read_of_archive?_eq_none harchive).mpr
      ⟨pattern, hread, rfl, List.ne_nil_of_mem hdocument⟩, hdocument⟩

/-- A file in a directory above, by a path without wildcards and by one with some. -/
theorem read_plain_file_above :
    let tree : Tree := ⟨[(⟨.above 1, ["d"]⟩, .directory), (⟨.above 1, ["a*", "d"]⟩, .file [7] false),
      (⟨.above 1, ["b", "d"]⟩, .file [8] true)]⟩
    read tree "./../d//b" = .ok ⟨"./../d//b", [[8]]⟩ ∧
      ∃ documents, read tree "../d/a*" = .ok ⟨"../d/a*", documents⟩ ∧ [7] ∈ documents := by
  intro tree
  have hplain : tree.read "./../d//b" = .ok [8] := rfl
  have hstar : tree.read "../d/a*" = .ok [7] := rfl
  have hunbracketed : Unbracketed "../d/a*".toList := ⟨by decide, by decide +kernel⟩
  exact ⟨(read_plain_file hplain (by decide +kernel)).1 (by decide) rfl,
    (read_plain_file hstar (by decide +kernel)).2.1 hunbracketed rfl⟩

/-- The files that a pattern of one name matches in the working directory. -/
theorem filesAt_search {tokens : List Files.Glob.Token}
    (h : Files.Glob.literal? tokens = none) :
    filesAt tree ⟨.here, [.entry tokens], false⟩ =
      ((Files.Glob.search tree ⟨.here, true⟩ tokens).map Files.Glob.Spot.place).filterMap
        (fileAt? tree) := by
  rw [filesAt, Files.Glob.Pattern.expand, List.foldl_cons, List.foldl_nil, List.flatMap_singleton,
    Files.Glob.Stride.apply, h]
  exact congrArg (List.filterMap (fileAt? tree)) (List.filter_eq_self.mpr fun _ _ => rfl)

/-- A path with brackets reads another file than its own, one with a star reads others as well, and
one that idles reads none. -/
theorem read_misses_plain_file :
    let tree : Tree := ⟨[(⟨.above 0, ["c*"]⟩, .file [9] false), (⟨.above 0, ["c1"]⟩, .file [8] false),
      (⟨.above 0, ["c[1]"]⟩, .file [7] false)]⟩
    (tree.read "c[1]" = .ok [7] ∧ Archive.decode? [7] = none ∧
      read tree "c[1]" = .ok ⟨"c[1]", [[8]]⟩) ∧
    (tree.read "c*" = .ok [9] ∧ Archive.decode? [9] = none ∧
      read tree "c*" = .ok ⟨"c*", [[9], [8], [7]]⟩) ∧
    (tree.read ".//c1" = .ok [8] ∧ Archive.decode? [8] = none ∧
      read tree ".//c1" = .error (.noMatch ".//c1")) := by
  intro tree
  have hnames : tree.names .here = ["c*", "c1", "c[1]"] := List.mergeSort_of_pairwise (by decide)
  let brackets : Files.Glob.Pattern := ⟨.here, [.entry [.char 'c', .within [⟨'1', '1'⟩]]], false⟩
  let star : Files.Glob.Pattern := ⟨.here, [.entry [.char 'c', .star]], false⟩
  have hbrackets : filesAt tree brackets = [[8]] := by
    rw [filesAt_search rfl, Files.Glob.search, hnames]
    rfl
  have hstar : filesAt tree star = [[9], [8], [7]] := by
    rw [filesAt_search rfl, Files.Glob.search, hnames]
    rfl
  refine ⟨⟨rfl, by decide +kernel, ?_⟩, ⟨rfl, by decide +kernel, ?_⟩, rfl, by decide +kernel, rfl⟩
  · exact (read_of_archive?_eq_none (by decide +kernel)).mpr
      ⟨brackets, rfl, by rw [hbrackets], List.cons_ne_nil _ _⟩
  · exact (read_of_archive?_eq_none (by decide +kernel)).mpr
      ⟨star, rfl, by rw [hstar], List.cons_ne_nil _ _⟩

end CorpusAnnotator.Corpus
