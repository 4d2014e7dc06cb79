import CorpusAnnotator.Corpus.Read
import CorpusAnnotator.Proofs.Archive.Distinct
import CorpusAnnotator.Proofs.Archive.RoundTrip
import Mathlib.Data.List.Forall2

/-! When a corpus can be read, and what it then is. Of an archive every entry has to open, those of
directories too, and every other one has to hold its document. What is no archive is a pattern, and
has to match a file. -/
namespace CorpusAnnotator.Corpus

open Archive (Entry lastOfEach)
open Files (Tree)
open Results

variable {tree : Tree} {source : String} {index : Nat} {e : Entry} {es listing : List Entry}
  {docs : List Document} {bytes : List UInt8} {c : Corpus}

/-! ## Archives -/

/-- The entries that hold documents. -/
def filesOf (es : List Entry) : List Entry := es.filter fun e => !e.isDirectory

theorem mem_filesOf : e ∈ filesOf es ↔ e ∈ es ∧ e.isDirectory = false := by
  rw [filesOf, List.mem_filter, Bool.not_eq_true']

theorem filesOf_cons_of_directory (h : e.isDirectory = true) (es : List Entry) :
    filesOf (e :: es) = filesOf es :=
  List.filter_cons_of_neg (by rw [h]; decide)

theorem filesOf_cons_of_file (h : e.isDirectory = false) (es : List Entry) :
    filesOf (e :: es) = e :: filesOf es :=
  List.filter_cons_of_pos (by rw [h]; rfl)

/-- An entry that cannot be read stops the reading, wherever it stands. -/
theorem ofEntries_eq_ok_iff :
    ofEntries source index es = .ok docs ↔
      (∀ e ∈ es, e.Opens) ∧ List.Forall₂ Entry.Holds (filesOf es) docs := by
  induction es generalizing index docs with
  | nil =>
    show Except.ok [] = Except.ok docs ↔ _ ∧ List.Forall₂ _ [] docs
    rw [List.forall₂_nil_left_iff]
    simp [eq_comm]
  | cons e es ih =>
    rw [ofEntries, bind_eq_ok_iff, List.forall_mem_cons]
    cases hdirectory : e.isDirectory with
    | true =>
      rw [filesOf_cons_of_directory hdirectory]
      simp only [if_true]
      constructor
      · rintro ⟨⟨⟩, hopen, h⟩
        obtain ⟨hopens, hholds⟩ := ih.mp h
        exact ⟨⟨Entry.open_eq_ok_iff.mp (mapError_eq_ok_iff.mp hopen), hopens⟩, hholds⟩
      · rintro ⟨⟨hopen, hopens⟩, hholds⟩
        exact ⟨(), mapError_eq_ok_iff.mpr (Entry.open_eq_ok_iff.mpr hopen),
          ih.mpr ⟨hopens, hholds⟩⟩
    | false =>
      rw [filesOf_cons_of_file hdirectory]
      simp only [Bool.false_eq_true, if_false]
      constructor
      · rintro ⟨⟨⟩, hopen, h⟩
        obtain ⟨d, hd, h⟩ := bind_eq_ok_iff.mp h
        obtain ⟨ds, hds, h⟩ := bind_eq_ok_iff.mp h
        cases h
        obtain ⟨hopens, hholds⟩ := ih.mp hds
        have hopen := mapError_eq_ok_iff.mp hopen
        exact ⟨⟨Entry.open_eq_ok_iff.mp hopen, hopens⟩,
          .cons (Entry.holds_iff.mpr ⟨hopen, mapError_eq_ok_iff.mp hd⟩) hholds⟩
      · rintro ⟨⟨-, hopens⟩, hholds⟩
        cases hholds with
        | cons hd hholds =>
          obtain ⟨hopen, hcontent⟩ := Entry.holds_iff.mp hd
          refine ⟨(), mapError_eq_ok_iff.mpr hopen, bind_eq_ok_iff.mpr ⟨_,
            mapError_eq_ok_iff.mpr hcontent, bind_eq_ok_iff.mpr ⟨_, ih.mpr ⟨hopens, hholds⟩, rfl⟩⟩⟩

theorem read_of_listed? (hfile : tree.read source = .ok bytes)
    (hlisted : Archive.listed? bytes = some listing) :
    read tree source = .ok c ↔ c.source = source ∧ (∀ e ∈ lastOfEach listing, e.Opens) ∧
      List.Forall₂ Entry.Holds (filesOf (lastOfEach listing)) c.documents := by
  have harchive : archive? tree source = some (lastOfEach listing) := by
    rw [archive?, hfile, ← Archive.distinct_eq_lastOfEach]
    exact congrArg (Option.map Archive.distinct) hlisted
  rw [read, readDocuments, harchive, map_eq_ok_iff]
  simp only [ofEntries_eq_ok_iff]
  constructor
  · rintro ⟨docs, hdocs, rfl⟩
    exact ⟨rfl, hdocs⟩
  · rintro ⟨rfl, hdocs⟩
    exact ⟨c.documents, hdocs, rfl⟩

theorem opens_stored (name : String) (bytes : List UInt8) : (Archive.stored name bytes).Opens :=
  Entry.open_eq_ok_iff.mp (Archive.open_stored name bytes)

theorem holds_stored (name : String) (bytes : List UInt8) :
    (Archive.stored name bytes).Holds bytes :=
  Entry.holds_iff.mpr ⟨Archive.open_stored name bytes, Archive.content_stored name bytes⟩

/-- Where each entry has its document, an entry has one. -/
theorem exists_holds (h : List.Forall₂ Entry.Holds es docs) (he : e ∈ es) : ∃ d, e.Holds d := by
  obtain ⟨i, hi, rfl⟩ := List.getElem_of_mem he
  exact ⟨_, h.get hi (h.length_eq ▸ hi)⟩

theorem exists_listed?_of_archive? (h : archive? tree source = some es) :
    ∃ bytes listing, tree.read source = .ok bytes ∧ Archive.listed? bytes = some listing ∧
      es = lastOfEach listing := by
  unfold archive? at h
  split at h
  · next bytes hread =>
    obtain ⟨listing, hlisted, rfl⟩ := Option.map_eq_some_iff.mp h
    exact ⟨bytes, listing, hread, hlisted, Archive.distinct_eq_lastOfEach listing⟩
  · cases h

/-! ## Patterns -/

/-- The bytes of the files that match a pattern. -/
def filesAt (tree : Tree) (pattern : Files.Glob.Pattern) : List Document :=
  (pattern.expand tree).filterMap (fileAt? tree)

theorem ofPattern_eq_ok_iff :
    ofPattern tree source = .ok docs ↔
      ∃ pattern, Files.Glob.Pattern.read source = .ok pattern ∧ docs = filesAt tree pattern ∧
        docs ≠ [] := by
  unfold ofPattern
  rw [bind_eq_ok_iff]
  simp only [mapError_eq_ok_iff]
  refine exists_congr fun pattern => and_congr_right fun _ => ?_
  show (if (filesAt tree pattern).isEmpty then _ else _) = _ ↔ _
  split
  · next hempty =>
    rw [List.isEmpty_iff] at hempty
    rw [hempty]
    constructor
    · intro h
      cases h
    · rintro ⟨rfl, hne⟩
      exact absurd rfl hne
  · next hne =>
    rw [List.isEmpty_iff] at hne
    rw [pure_eq_ok, Except.ok.injEq]
    constructor
    · rintro rfl
      exact ⟨rfl, hne⟩
    · exact fun h => h.1.symm

theorem read_of_archive?_eq_none (h : archive? tree source = none) :
    read tree source = .ok c ↔ ∃ pattern, Files.Glob.Pattern.read source = .ok pattern ∧
      c = ⟨source, filesAt tree pattern⟩ ∧ c.documents ≠ [] := by
  rw [read, readDocuments, h, map_eq_ok_iff]
  simp only [ofPattern_eq_ok_iff]
  constructor
  · rintro ⟨docs, ⟨pattern, hpattern, rfl, hne⟩, rfl⟩
    exact ⟨pattern, hpattern, rfl, hne⟩
  · rintro ⟨pattern, hpattern, rfl, hne⟩
    exact ⟨_, ⟨pattern, hpattern, rfl, hne⟩, rfl⟩

/-! ## All or nothing -/

/-- Whether an entry is a directory is told by its name alone. -/
theorem isDirectory_of_name {k : Entry} (h : k.name = e.name) : k.isDirectory = e.isDirectory := by
  rw [Entry.isDirectory, Entry.isDirectory, h]

theorem forall_isDirectory_of_filesOf (h : filesOf (lastOfEach listing) = []) :
    ∀ e ∈ listing, e.isDirectory = true := by
  intro e he
  obtain ⟨k, hk, hname⟩ := Archive.exists_mem_lastOfEach (List.mem_map_of_mem he)
  rw [← isDirectory_of_name hname, ← Bool.not_eq_false]
  intro hfile
  have hmem := mem_filesOf.mpr ⟨hk, hfile⟩
  rw [h] at hmem
  cases hmem

/-- A file entry that does not hold a document lets the whole reading fail. -/
theorem exists_error_of_not_holds (hfile : tree.read source = .ok bytes)
    (hlisted : Archive.listed? bytes = some listing) (he : e ∈ filesOf (lastOfEach listing))
    (hnot : ∀ d, ¬ e.Holds d) : ∃ error, read tree source = .error error := by
  cases hread : read tree source with
  | error error => exact ⟨error, rfl⟩
  | ok c =>
    obtain ⟨-, -, hholds⟩ := (read_of_listed? hfile hlisted).mp hread
    obtain ⟨d, hd⟩ := exists_holds hholds he
    exact absurd hd (hnot d)

theorem exists_error_of_no_match (harchive : archive? tree source = none)
    (hnone : ∀ pattern, Files.Glob.Pattern.read source = .ok pattern → filesAt tree pattern = []) :
    ∃ error, read tree source = .error error := by
  cases hread : read tree source with
  | error error => exact ⟨error, rfl⟩
  | ok c =>
    obtain ⟨pattern, hpattern, rfl, hne⟩ := (read_of_archive?_eq_none harchive).mp hread
    exact absurd (hnone pattern hpattern) hne

theorem filesAt_eq_nil {pattern : Files.Glob.Pattern}
    (h : ∀ p ∈ pattern.expand tree, ∀ content executable,
      tree.node? p ≠ some (.file content executable)) : filesAt tree pattern = [] := by
  rw [filesAt, List.filterMap_eq_nil_iff]
  intro p hp
  unfold fileAt?
  split
  · next content executable hnode => exact absurd hnode (h p hp content executable)
  · rfl

/-- Of an archive, the corpus is the content of its file entries: of each name the entry that is
listed last, at the place where the name is listed first. It is read if every one of them can be had
and every directory entry opens, and not in part. Only an archive without file entries gives an empty
corpus; a pattern without a file gives none. -/
theorem read_all_files_or_none (tree : Tree) (source : String) :
    (∀ bytes listing, tree.read source = .ok bytes → Archive.listed? bytes = some listing →
      (∀ c, read tree source = .ok c ↔ c.source = source ∧
        (∀ e ∈ lastOfEach listing, e.isDirectory = true → e.Opens) ∧
        List.Forall₂ Entry.Holds (filesOf (lastOfEach listing)) c.documents) ∧
      ((∃ e ∈ filesOf (lastOfEach listing), ∀ d, ¬ e.Holds d) →
        ∃ error, read tree source = .error error)) ∧
    (∀ c, read tree source = .ok c → c.documents = [] →
      ∃ bytes listing, tree.read source = .ok bytes ∧ Archive.listed? bytes = some listing ∧
        ∀ e ∈ listing, e.isDirectory = true) ∧
    (archive? tree source = none →
      (∀ pattern, Files.Glob.Pattern.read source = .ok pattern → ∀ p ∈ pattern.expand tree,
        ∀ content executable, tree.node? p ≠ some (.file content executable)) →
      ∃ error, read tree source = .error error) := by
  refine ⟨fun bytes listing hfile hlisted => ⟨fun c => ?_, ?_⟩, fun c hread hempty => ?_,
    fun harchive hnone => ?_⟩
  · rw [read_of_listed? hfile hlisted]
    constructor
    · rintro ⟨hsource, hopens, hholds⟩
      exact ⟨hsource, fun e he _ => hopens e he, hholds⟩
    · rintro ⟨hsource, hopens, hholds⟩
      refine ⟨hsource, fun e he => ?_, hholds⟩
      cases hdirectory : e.isDirectory with
      | true => exact hopens e he hdirectory
      | false =>
        obtain ⟨d, hd⟩ := exists_holds hholds (mem_filesOf.mpr ⟨he, hdirectory⟩)
        exact hd.toOpens
  · rintro ⟨e, he, hnot⟩
    exact exists_error_of_not_holds hfile hlisted he hnot
  · cases harchive : archive? tree source with
    | none =>
      obtain ⟨pattern, -, -, hne⟩ := (read_of_archive?_eq_none harchive).mp hread
      exact absurd hempty hne
    | some es =>
      obtain ⟨bytes, listing, hfile, hlisted, -⟩ := exists_listed?_of_archive? harchive
      obtain ⟨-, -, hholds⟩ := (read_of_listed? hfile hlisted).mp hread
      rw [hempty, List.forall₂_nil_right_iff] at hholds
      exact ⟨bytes, listing, hfile, hlisted, forall_isDirectory_of_filesOf hholds⟩
  · exact exists_error_of_no_match harchive fun pattern hpattern =>
      filesAt_eq_nil (hnone pattern hpattern)

/-- An archive with a directory and a name that comes twice, one with a directory only, and a pattern
that nothing matches. -/
theorem read_all_files_or_none_three_sources :
    let twice := Archive.encode [("a", [1]), ("d/", []), ("b", [3]), ("a", [2])]
    let bare := Archive.encode [("d/", [])]
    let tree : Tree :=
      ⟨[(⟨.above 0, ["c.zip"]⟩, .file twice false), (⟨.above 0, ["e.zip"]⟩, .file bare false)]⟩
    read tree "c.zip" = .ok ⟨"c.zip", [[2], [3]]⟩ ∧
      (∃ bytes listing, tree.read "e.zip" = .ok bytes ∧ Archive.listed? bytes = some listing ∧
        ∀ e ∈ listing, e.isDirectory = true) ∧
      ∃ error, read tree "x" = .error error := by
  intro twice bare tree
  have hlisted : Archive.listed? twice = some [Archive.stored "a" [1], Archive.stored "d/" [],
      Archive.stored "b" [3], Archive.stored "a" [2]] := by
    decide +kernel
  have hkept : lastOfEach [Archive.stored "a" [1], Archive.stored "d/" [], Archive.stored "b" [3],
      Archive.stored "a" [2]] =
      [Archive.stored "a" [2], Archive.stored "d/" [], Archive.stored "b" [3]] := by
    decide +kernel
  have hfiles : filesOf [Archive.stored "a" [2], Archive.stored "d/" [], Archive.stored "b" [3]] =
      [Archive.stored "a" [2], Archive.stored "b" [3]] := by
    decide +kernel
  have hbare : Archive.decode? bare = some [Archive.stored "d/" []] := by
    decide +kernel
  refine ⟨(((read_all_files_or_none tree "c.zip").1 twice _ rfl hlisted).1 _).mpr ⟨rfl, ?_, ?_⟩,
    (read_all_files_or_none tree "e.zip").2.1 ⟨"e.zip", []⟩ ?_ rfl,
    (read_all_files_or_none tree "x").2.2 rfl ?_⟩
  · rw [hkept]
    intro e he _
    simp only [List.mem_cons, List.not_mem_nil, or_false] at he
    rcases he with rfl | rfl | rfl <;> exact opens_stored _ _
  · rw [hkept, hfiles]
    exact .cons (holds_stored _ _) (.cons (holds_stored _ _) .nil)
  · have harchive : archive? tree "e.zip" = Archive.decode? bare := rfl
    rw [read, readDocuments, harchive, hbare]
    rfl
  · intro pattern hpattern
    cases hpattern
    intro p hp
    cases hp

/-- A directory entry that is encrypted has no document, but stops the reading of all others. -/
theorem read_stops_at_encrypted_directory :
    let locked : Archive.Description := { Archive.describe "d/" [] with flags := 1 }
    let parts := { Archive.localHeader "d/" [] with description := locked }.encode ++
      Archive.localPart "b" [120]
    let directory := { Archive.centralHeader "d/" [] 0 with description := locked }.encode ++
      (Archive.centralHeader "b" [120] 32).encode
    let bytes := parts ++ directory ++ Archive.ending 2 parts.length directory.length
    let tree : Tree := ⟨[(⟨.above 0, ["c.zip"]⟩, .file bytes false)]⟩
    ∃ listing, Archive.listed? bytes = some listing ∧
      List.Forall₂ Entry.Holds (filesOf (lastOfEach listing)) [[120]] ∧
      read tree "c.zip" = .error (.badEntry 0 "c.zip" .encrypted) := by
  intro locked parts directory bytes tree
  have hlisted : Archive.listed? bytes =
      some [{ Archive.stored "d/" [] with encrypted := true }, Archive.stored "b" [120]] := by
    decide +kernel
  have hdistinct : Archive.decode? bytes =
      some [{ Archive.stored "d/" [] with encrypted := true }, Archive.stored "b" [120]] := by
    rw [Archive.decode?, hlisted]
    decide +kernel
  have hfiles : filesOf (lastOfEach
      [{ Archive.stored "d/" [] with encrypted := true }, Archive.stored "b" [120]]) =
      [Archive.stored "b" [120]] := by
    decide +kernel
  refine ⟨_, hlisted, ?_, ?_⟩
  · rw [hfiles]
    exact .cons (holds_stored _ _) .nil
  · have harchive : archive? tree "c.zip" = Archive.decode? bytes := rfl
    rw [read, readDocuments, harchive, hdistinct]
    rfl

end CorpusAnnotator.Corpus
