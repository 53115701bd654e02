import KernelOmega.Executors.Materialize
import KernelOmega.Python.TextFile

/-!
# The snapshot of a repository

`_snapshot_repo_files` reads the files of a repository into a `dict` of texts, which travels in
every capsule and is written out again below an empty directory. `fix_tests` reads the source
the same way, and the merger writes the text back.

The paths survive the trip, since nothing is a file and a directory at once. The contents are
read in text mode and written without it, so they survive exactly when they have no carriage
return.
-/

namespace KernelOmega

open Concurrent Posix Python

namespace Seeding

/-- A name the kernel lets stand in a directory. -/
def IsName (name : String) : Prop := name ≠ "" ∧ name ≠ "." ∧ name ≠ ".." ∧ '/' ∉ name.toList

/-- A directory of regular files, and what `rglob("*")` yields of it. -/
structure RepoTree where
  tree : Tree String ByteArray
  paths : List (Path String)
  nodup : paths.Nodup
  listed : ∀ path, path ∈ paths ↔ path ≠ [] ∧ tree.entry path ≠ none
  names : ∀ path ∈ paths, ∀ name ∈ path, IsName name

/-- `IGNORED_SNAPSHOT_DIRS` -/
def ignoredSnapshotDirs : List String :=
  [".git", ".hg", ".svn", ".venv", ".mypy_cache", ".pytest_cache", "__pycache__", "node_modules",
    "dist", "build", "target", "tmp"]

/-- `MAX_SNAPSHOT_BYTES` -/
def maxSnapshotBytes : Nat := 512 * 1024

/-- `path.as_posix()` of a relative path. -/
def asPosix (path : Path String) : String := String.intercalate "/" path.reverse

/-- What the loop of `_snapshot_repo_files` keeps of a path. -/
def snapshotEntry (repo : RepoTree) (path : Path String) : Option (Path String × String) :=
  match repo.tree.entry path with
  | some (.file bytes) =>
    if path.any (· ∈ ignoredSnapshotDirs) then none
    else if maxSnapshotBytes < bytes.size then none
    else (readText utf8 bytes).map (path, ·)
  | _ => none

/-- The files the snapshot has, in the order of `sorted`. -/
def snapshotFiles (repo : RepoTree) : List (Path String × String) :=
  (repo.paths.mergeSort fun a b => a.reverse ≤ b.reverse).filterMap (snapshotEntry repo)

/-- `_snapshot_repo_files` -/
def snapshotRepoFiles (repo : RepoTree) : List (String × String) :=
  (snapshotFiles repo).map fun file => (asPosix file.1, file.2)

/-- A file the snapshot is to have: not ignored, not too long, valid UTF-8. -/
structure Included (repo : RepoTree) (path : Path String) (bytes : ByteArray) : Prop where
  isFile : repo.tree.entry path = some (.file bytes)
  kept : ∀ name ∈ path, name ∉ ignoredSnapshotDirs
  short : bytes.size ≤ maxSnapshotBytes
  isText : ∃ text, decodeUtf8 bytes = some text

/-- The bytes of a file in a tree of texts, which are stored in UTF-8. -/
def fileBytes (t : Tree String String) (path : Path String) : Option ByteArray :=
  match t.entry path with
  | some (.file text) => some (encodeUtf8 text)
  | _ => none

/-- The run has made exactly the included files, byte for byte. -/
def Recreates (repo : RepoTree) (root : Path String)
    (run : Except (Failure PathError) Unit × Tree String String) : Prop :=
  run.1 = .ok () ∧ ∀ q bytes, fileBytes run.2 (q ++ root) = some bytes ↔ Included repo q bytes

/-- No file of the snapshot has a carriage return. -/
def NoCarriageReturn (repo : RepoTree) : Prop :=
  ∀ path bytes, Included repo path bytes → (13 : UInt8) ∉ bytes.data.toList

/-- The source that `fix_tests` reads with the locale's encoding is what `write_text` stores. -/
def WritesBack (encoding : TextEncoding) (source : ByteArray) : Prop :=
  ∀ text, readText encoding source = some text → encodeUtf8 text = source

/-! ## The keys -/

/-- The text of a path falls apart at its slashes into its names. -/
theorem splitSlash_asPosix {path : Path String} (names : ∀ name ∈ path, IsName name)
    (proper : path ≠ []) : splitSlash (asPosix path) = path.reverse := by
  have chars : (asPosix path).toList = List.intercalate ['/'] (path.reverse.map String.toList) := by
    rw [asPosix, String.toList_intercalate]
    rfl
  rw [splitSlash, chars, List.splitOn_intercalate]
  · rw [List.map_map]
    have same : String.ofList ∘ String.toList = id := funext fun s => String.ofList_toList
    rw [same, List.map_id]
  · intro name mem
    obtain ⟨text, here, rfl⟩ := List.mem_map.mp mem
    exact (names text (List.mem_reverse.mp here)).2.2.2
  · rwa [ne_eq, List.map_eq_nil_iff, List.reverse_eq_nil_iff]

/-- The text of a path below the repository is one both executors take, and names the same place. -/
theorem asPosix_safe {path : Path String} (names : ∀ name ∈ path, IsName name)
    (proper : path ≠ []) :
    SafePath (asPosix path) ∧ PlainPath (asPosix path) ∧ below (asPosix path) = path := by
  have split := splitSlash_asPosix names proper
  have isName : ∀ name ∈ splitSlash (asPosix path), IsName name := by
    rw [split]
    exact fun name mem => names name (List.mem_reverse.mp mem)
  have kept : keptNames (asPosix path) = path.reverse := by
    rw [keptNames, List.filter_eq_self.mpr, split]
    exact fun name mem => decide_eq_true ⟨(isName name mem).1, (isName name mem).2.1⟩
  have relative : startsAtRoot (asPosix path) = false := by
    unfold startsAtRoot
    rw [beq_eq_false_iff_ne]
    intro slash
    obtain ⟨rest, chars⟩ := List.head?_eq_some_iff.mp slash
    have first : "" ∈ splitSlash (asPosix path) := by
      have before : asPosix path = "" ++ "/" ++ String.ofList rest := by
        apply String.toList_inj.mp
        simp [chars, String.toList_append]
      rw [before, splitSlash]
      have chars' : ("" ++ "/" ++ String.ofList rest).toList = [] ++ '/' :: rest := by
        simp [String.toList_append]
      rw [chars', List.splitOn_append_cons_self, List.map_append]
      exact List.mem_append_left _ (List.mem_singleton.mpr rfl)
    exact (isName "" first).1 rfl
  have nonempty : asPosix path ≠ "" := by
    intro none
    rw [none] at isName
    exact (isName "" (by decide)).1 rfl
  refine ⟨⟨relative, ?_⟩, ⟨nonempty, fun _ name mem => ?_⟩, ?_⟩
  · rw [kept]
    exact fun up => (names ".." (List.mem_reverse.mp up)).2.2.1 rfl
  · exact ⟨(isName name mem).1, (isName name mem).2.1⟩
  · rw [below, kept, List.reverse_reverse]

/-! ## The files -/

/-- The snapshot has the files that are included and can be decoded, with their texts. -/
theorem mem_snapshotFiles_iff (repo : RepoTree) (file : Path String × String) :
    file ∈ snapshotFiles repo ↔
      ∃ bytes, Included repo file.1 bytes ∧ readText utf8 bytes = some file.2 := by
  have kept : ∀ path : Path String, path.any (· ∈ ignoredSnapshotDirs) = false ↔
      ∀ name ∈ path, name ∉ ignoredSnapshotDirs := by
    intro path
    simp
  rw [snapshotFiles, List.mem_filterMap]
  constructor
  · rintro ⟨path, -, keeps⟩
    unfold snapshotEntry at keeps
    split at keeps
    · next bytes isFile =>
      split at keeps
      · cases keeps
      next notIgnored =>
      split at keeps
      · cases keeps
      next notLong =>
      obtain ⟨text, reads, rfl⟩ := Option.map_eq_some_iff.mp keeps
      obtain ⟨decoded, decodes, -⟩ := Option.map_eq_some_iff.mp reads
      exact ⟨bytes, ⟨isFile, (kept path).mp (Bool.eq_false_iff.mpr notIgnored), not_lt.mp notLong,
        decoded, decodes⟩, reads⟩
    · cases keeps
  · rintro ⟨bytes, included, reads⟩
    refine ⟨file.1, ?_, ?_⟩
    · rw [List.mem_mergeSort, repo.listed, included.isFile]
      refine ⟨fun none => ?_, Option.some_ne_none _⟩
      have isDir := included.isFile
      rw [none, repo.tree.top] at isDir
      cases isDir
    · rw [snapshotEntry, included.isFile]
      dsimp only
      rw [if_neg (Bool.eq_false_iff.mp ((kept _).mpr included.kept)),
        if_neg (not_lt.mpr included.short), reads]
      rfl

/-- The paths of a snapshot are made of names. -/
theorem path_of_mem_snapshotFiles {repo : RepoTree} {file : Path String × String}
    (mem : file ∈ snapshotFiles repo) : file.1 ≠ [] ∧ ∀ name ∈ file.1, IsName name := by
  obtain ⟨bytes, included, -⟩ := (mem_snapshotFiles_iff repo file).mp mem
  have there : repo.tree.entry file.1 ≠ none := by
    rw [included.isFile]
    exact Option.some_ne_none _
  have proper : file.1 ≠ [] := by
    intro none
    have isDir := included.isFile
    rw [none, repo.tree.top] at isDir
    cases isDir
  exact ⟨proper, repo.names _ ((repo.listed _).mpr ⟨proper, there⟩)⟩

/-- No file of the snapshot lies below another one: they stand in one tree. -/
theorem snapshotFiles_apart (repo : RepoTree) :
    (snapshotFiles repo).Pairwise fun f g => Apart f.1 g.1 := by
  have apart : ∀ f ∈ snapshotFiles repo, ∀ g ∈ snapshotFiles repo, f.1 ≠ g.1 →
      ¬f.1 <:+ g.1 := by
    intro f memF g memG other suffix
    obtain ⟨bytes, isFile, -⟩ := (mem_snapshotFiles_iff repo f).mp memF
    obtain ⟨bytes', isFile', -⟩ := (mem_snapshotFiles_iff repo g).mp memG
    obtain ⟨below, lies⟩ := suffix
    have proper : below ≠ [] := by
      rintro rfl
      exact other lies
    have there : repo.tree.entry (below ++ f.1) ≠ none := by
      rw [lies, isFile'.isFile]
      exact Option.some_ne_none _
    have isDir := repo.tree.dir_of_append proper there
    rw [isFile.isFile] at isDir
    cases isDir
  have distinct : (snapshotFiles repo).Pairwise fun f g => f.1 ≠ g.1 := by
    have sorted := (List.mergeSort_perm repo.paths fun a b => a.reverse ≤ b.reverse).nodup_iff.mpr
      repo.nodup
    have same : ∀ {path file}, snapshotEntry repo path = some file → file.1 = path := by
      intro path file keeps
      unfold snapshotEntry at keeps
      split at keeps
      · split at keeps
        · cases keeps
        split at keeps
        · cases keeps
        obtain ⟨text, -, rfl⟩ := Option.map_eq_some_iff.mp keeps
        rfl
      · cases keeps
    rw [snapshotFiles, List.pairwise_filterMap]
    exact sorted.imp fun other f keeps g keeps' => by rwa [same keeps, same keeps']
  exact distinct.imp_of_mem fun memF memG other =>
    ⟨apart _ memF _ memG other, apart _ memG _ memF other.symm⟩

/-! ## The trip -/

/-- The entries of the snapshot, in whatever order they come, are all put below an empty root. -/
theorem snapshot_laidOut {repo : RepoTree} {entries : List (String × String)}
    (perm : entries.Perm (snapshotRepoFiles repo)) {t : Tree String String} {root : Path String}
    (bare : EmptyRoot t root) :
    ∃ t', inTurn (putBelow root) entries t = some t' ∧
      ∀ q text, t'.entry (q ++ root) = some (.file text) ↔ (q, text) ∈ snapshotFiles repo := by
  have keys : ∀ entry ∈ entries, ∃ file ∈ snapshotFiles repo, (asPosix file.1, file.2) = entry :=
    fun entry mem => List.mem_map.mp (perm.mem_iff.mp mem)
  have places : ∀ entry ∈ entries,
      putBelow root entry = Tree.place entry.2 (below entry.1 ++ root) := by
    intro entry mem
    obtain ⟨file, memFile, rfl⟩ := keys entry mem
    obtain ⟨proper, names⟩ := path_of_mem_snapshotFiles memFile
    obtain ⟨safe, plain, -⟩ := asPosix_safe names proper
    funext t
    rw [putBelow_of_safe safe, Tree.place, List.tail_append_of_ne_nil (below_ne_nil safe plain)]
  have laid : (entries.map fun entry => (below entry.1 ++ root, entry.2)).Perm
      ((snapshotFiles repo).map fun file => (file.1 ++ root, file.2)) := by
    refine (perm.map _).trans (List.Perm.of_eq ?_)
    rw [snapshotRepoFiles, List.map_map]
    refine List.map_congr_left fun file mem => ?_
    obtain ⟨proper, names⟩ := path_of_mem_snapshotFiles mem
    rw [Function.comp_apply, (asPosix_safe names proper).2.2]
  have memLaid : ∀ file, file ∈ (entries.map fun entry => (below entry.1 ++ root, entry.2)) ↔
      ∃ f ∈ snapshotFiles repo, (f.1 ++ root, f.2) = file :=
    fun file => laid.mem_iff.trans List.mem_map
  have apart : (entries.map fun entry => (below entry.1 ++ root, entry.2)).Pairwise
      fun f g => Apart f.1 g.1 := by
    refine (laid.pairwise_iff fun away => ⟨away.2, away.1⟩).mpr ?_
    rw [List.pairwise_map]
    refine (snapshotFiles_apart repo).imp fun away => ?_
    exact ⟨fun suffix => away.1 (List.suffix_append_self_iff.mp suffix),
      fun suffix => away.2 (List.suffix_append_self_iff.mp suffix)⟩
  have fits : ∀ f ∈ (entries.map fun entry => (below entry.1 ++ root, entry.2)), t.Fits f.1 := by
    intro f mem
    obtain ⟨file, memFile, rfl⟩ := (memLaid f).mp mem
    have proper := (path_of_mem_snapshotFiles memFile).1
    refine ⟨fun none => proper (List.append_eq_nil_iff.mp none).1, fun above suffix text there => ?_,
      ?_⟩
    · rw [List.tail_append_of_ne_nil proper] at suffix
      rcases above_or_below suffix with high | ⟨p, rfl, -⟩
      · rw [t.dir_of_suffix high bare.isDir] at there
        cases there
      · cases p with
        | nil =>
          rw [List.nil_append, bare.isDir] at there
          cases there
        | cons name parent =>
          rw [bare.nothing _ (List.cons_ne_nil name parent)] at there
          cases there
    · rw [bare.nothing _ proper]
      intro there
      cases there
  obtain ⟨t', puts, files, frame, dirs⟩ := inTurn_place fits apart
  rw [inTurn_map places] at puts
  refine ⟨t', puts, fun q text => ?_⟩
  constructor
  · intro there
    by_cases here : ∃ f ∈ snapshotFiles repo, q = f.1
    · obtain ⟨f, mem, rfl⟩ := here
      have stands := files _ ((memLaid _).mpr ⟨f, mem, rfl⟩)
      rw [stands] at there
      obtain rfl := Entry.file.inj (Option.some.inj there)
      exact mem
    · have besides : ∀ f ∈ (entries.map fun entry => (below entry.1 ++ root, entry.2)),
          q ++ root ≠ f.1 := by
        intro f mem same
        obtain ⟨file, memFile, rfl⟩ := (memLaid f).mp mem
        exact here ⟨file, memFile, List.append_cancel_right same⟩
      by_cases onTheWay : ∃ f ∈ (entries.map fun entry => (below entry.1 ++ root, entry.2)),
          q ++ root <:+ f.1
      · rw [dirs _ besides onTheWay] at there
        cases there
      · rw [frame _ fun f mem suffix => onTheWay ⟨f, mem, suffix⟩] at there
        cases q with
        | nil =>
          rw [List.nil_append, bare.isDir] at there
          cases there
        | cons name parent =>
          rw [bare.nothing _ (List.cons_ne_nil name parent)] at there
          cases there
  · exact fun mem => files _ ((memLaid _).mpr ⟨(q, text), mem, rfl⟩)

/-- A run that has laid out the snapshot recreates the included files exactly when none of them
has a carriage return. -/
theorem recreates_iff_of_laidOut {repo : RepoTree} {root : Path String}
    {run : Except (Failure PathError) Unit × Tree String String} (returns : run.1 = .ok ())
    (laid : ∀ q text, run.2.entry (q ++ root) = some (.file text) ↔
      (q, text) ∈ snapshotFiles repo) :
    Recreates repo root run ↔ NoCarriageReturn repo := by
  have stored : ∀ q bytes, fileBytes run.2 (q ++ root) = some bytes ↔
      ∃ text, (q, text) ∈ snapshotFiles repo ∧ encodeUtf8 text = bytes := by
    intro q bytes
    unfold fileBytes
    constructor
    · intro some_
      split at some_
      · next text there => exact ⟨text, (laid q text).mp there, Option.some.inj some_⟩
      · cases some_
    · rintro ⟨text, mem, rfl⟩
      rw [(laid q text).mpr mem]
  -- reading gives back what was stored exactly without a carriage return
  have exact_ : ∀ {bytes text}, readText utf8 bytes = some text →
      (encodeUtf8 text = bytes ↔ (13 : UInt8) ∉ bytes.data.toList) := by
    intro bytes text reads
    rw [encodeUtf8_readText_iff utf8 reads]
    constructor
    · rintro ⟨decoded, -, rfl, none⟩
      rwa [carriage_mem_encodeUtf8_iff]
    · intro none
      obtain ⟨decoded, decodes, -⟩ := Option.map_eq_some_iff.mp reads
      have same := decodeUtf8_eq_some_iff.mp decodes
      refine ⟨decoded, decodes, same, fun mem => none ?_⟩
      rw [← same]
      exact (carriage_mem_encodeUtf8_iff decoded).mpr mem
  constructor
  · rintro ⟨-, recreates⟩ path bytes included
    obtain ⟨text, mem, same⟩ := (stored path bytes).mp ((recreates path bytes).mpr included)
    obtain ⟨bytes', included', reads⟩ := (mem_snapshotFiles_iff repo _).mp mem
    have isFile := included'.isFile
    rw [included.isFile] at isFile
    obtain rfl := Entry.file.inj (Option.some.inj isFile)
    exact (exact_ reads).mp same
  · intro none
    refine ⟨returns, fun q bytes => (stored q bytes).trans ⟨?_, fun included => ?_⟩⟩
    · rintro ⟨text, mem, rfl⟩
      obtain ⟨bytes, included, reads⟩ := (mem_snapshotFiles_iff repo _).mp mem
      rwa [(exact_ reads).mpr (none q bytes included)]
    · obtain ⟨decoded, decodes⟩ := included.isText
      have reads := @readText_of_decodes utf8 _ _ decodes
      exact ⟨_, (mem_snapshotFiles_iff repo _).mpr ⟨bytes, included, reads⟩,
        (exact_ reads).mpr (none q bytes included)⟩

/-- A script that writes the snapshot's files recreates the repository's exactly when none of these
has a carriage return. -/
theorem run_of_does {repo : RepoTree} {entries : List (String × String)} {root : Path String}
    {script : FileScript} (does : Does root script (inTurn (putBelow root) entries))
    (perm : entries.Perm (snapshotRepoFiles repo)) {t : Tree String String}
    (bare : EmptyRoot t root) :
    Recreates repo root (Script.runOn script t) ↔ NoCarriageReturn repo := by
  obtain ⟨t', puts, laid⟩ := snapshot_laidOut perm bare
  rcases does t bare.isDir with ⟨t₁, defined, runs, -⟩ | ⟨undefined, -⟩
  · obtain rfl := Option.some.inj (puts.symm.trans defined)
    rw [runs]
    exact recreates_iff_of_laidOut rfl laid
  · rw [puts] at undefined
    cases undefined

/-- The paths of a snapshot are plain. -/
theorem plain_of_mem {repo : RepoTree} {entries : List (String × String)}
    (perm : entries.Perm (snapshotRepoFiles repo)) :
    ∀ entry ∈ entries, PlainPath entry.1 := by
  intro entry mem
  obtain ⟨file, memFile, rfl⟩ := List.mem_map.mp (perm.mem_iff.mp mem)
  obtain ⟨proper, names⟩ := path_of_mem_snapshotFiles memFile
  exact (asPosix_safe names proper).2.1

/-- The source comes back exactly when its locale text is its UTF-8 text and has no carriage
return. -/
theorem writesBack_iff (encoding : TextEncoding) (source : ByteArray) :
    WritesBack encoding source ↔
      ∀ decoded, encoding.decode source = some decoded →
        encodeUtf8 decoded = source ∧ '\r' ∉ decoded.toList := by
  constructor
  · intro back decoded decodes
    have reads := readText_of_decodes decodes
    obtain ⟨decoded', decodes', same⟩ :=
      (encodeUtf8_readText_iff encoding reads).mp (back _ reads)
    obtain rfl := Option.some.inj (decodes.symm.trans decodes')
    exact same
  · intro exact_ text reads
    obtain ⟨decoded, decodes, -⟩ := Option.map_eq_some_iff.mp reads
    exact (encodeUtf8_readText_iff encoding reads).mpr
      ⟨decoded, decodes, exact_ decoded decodes⟩

end Seeding

open Seeding

/-- The snapshot of every repository, in whatever order its entries are stored, recreates the
included files byte for byte in an empty directory exactly when none of them has a carriage
return, in both executors; and the source that `fix_tests` reads is written back as it was
exactly when the locale reads it as UTF-8 does and it has none either. -/
theorem seeding_preserves_iff (repo : RepoTree) (encoding : TextEncoding) (source : ByteArray)
    (entries : List (String × String)) (perm : entries.Perm (snapshotRepoFiles repo))
    (root : PurePath) (t t' : Tree String String) (bare : EmptyRoot t (Simulator.place root))
    (bare' : EmptyRoot t' (Guest.place Guest.repoRoot)) :
    (Recreates repo (Simulator.place root)
        (Script.runOn (Simulator.materializeSnapshot root entries) t) ↔ NoCarriageReturn repo) ∧
      (Recreates repo (Guest.place Guest.repoRoot)
        (Script.runOn (Guest.materializeSnapshot Guest.repoRoot entries) t') ↔
          NoCarriageReturn repo) ∧
      (WritesBack encoding source ↔
        ∀ decoded, encoding.decode source = some decoded →
          encodeUtf8 decoded = source ∧ '\r' ∉ decoded.toList) := by
  have sorted : (entries.mergeSort fun a b => a.1 ≤ b.1).Perm (snapshotRepoFiles repo) :=
    (List.mergeSort_perm _ _).trans perm
  refine ⟨run_of_does (Does.each fun entry mem => ?_) perm bare,
    run_of_does (Does.each fun entry mem => ?_) sorted bare', writesBack_iff encoding source⟩
  · exact simulator_entry_does root (plain_of_mem perm entry mem)
  · exact guest_entry_does (plain_of_mem sorted entry mem)

namespace SmallRepo

theorem oneFile_entry (bytes : ByteArray) :
    (Tree.empty.put "algo.py" [] (Entry.file bytes)).entry =
      Function.update (@Tree.empty String ByteArray _).entry ["algo.py"] (some (.file bytes)) := by
  refine Tree.put_entry rfl (fun isDir => ?_) _
  simp only [Tree.empty, List.cons_ne_nil, ↓reduceIte, reduceCtorEq] at isDir

/-- A repository with one file. -/
def repo (text : String) : RepoTree where
  tree := Tree.empty.put "algo.py" [] (.file (encodeUtf8 text))
  paths := [["algo.py"]]
  nodup := List.nodup_singleton _
  listed := by
    intro path
    rw [oneFile_entry, List.mem_singleton]
    by_cases here : path = ["algo.py"]
    · subst here
      simp
    · rw [Function.update_of_ne here]
      refine ⟨fun same => absurd same here, fun ⟨proper, there⟩ => absurd ?_ there⟩
      exact if_neg proper
  names := by
    intro path mem name memName
    rw [List.mem_singleton.mp mem, List.mem_singleton] at memName
    subst memName
    unfold IsName
    decide

theorem included_iff (text : String) (short : (encodeUtf8 text).size ≤ maxSnapshotBytes)
    (path : Path String) (bytes : ByteArray) :
    Included (repo text) path bytes ↔ path = ["algo.py"] ∧ bytes = encodeUtf8 text := by
  have entries : (repo text).tree.entry =
      Function.update (@Tree.empty String ByteArray _).entry ["algo.py"]
        (some (.file (encodeUtf8 text))) :=
    oneFile_entry _
  constructor
  · intro included
    have isFile := included.isFile
    rw [entries] at isFile
    by_cases here : path = ["algo.py"]
    · subst here
      rw [Function.update_self] at isFile
      exact ⟨rfl, (Entry.file.inj (Option.some.inj isFile)).symm⟩
    · rw [Function.update_of_ne here] at isFile
      dsimp only [Tree.empty] at isFile
      split at isFile
      · cases isFile
      · cases isFile
  · rintro ⟨rfl, rfl⟩
    refine ⟨?_, by decide, short, text, decodeUtf8_encodeUtf8 text⟩
    rw [entries, Function.update_self]

end SmallRepo

open SmallRepo SmallCapsule in
/-- A source with plain newlines comes back. -/
theorem seeding_preserves_iff_newline :
    Recreates (repo "x = 1\n") (Simulator.place root)
        (Script.runOn (Simulator.materializeSnapshot root (snapshotRepoFiles (repo "x = 1\n")))
          (Tree.empty.made (Simulator.place root))) ∧
      WritesBack utf8 (encodeUtf8 "x = 1\n") := by
  obtain ⟨recreates, -, back⟩ := seeding_preserves_iff (repo "x = 1\n") utf8
    (encodeUtf8 "x = 1\n") _ (List.Perm.refl _) root _ _ (emptyRoot_made _) (emptyRoot_made _)
  refine ⟨recreates.mpr fun path bytes included => ?_, back.mpr fun decoded decodes => ?_⟩
  · obtain ⟨-, rfl⟩ := (included_iff _ (by decide) path bytes).mp included
    rw [carriage_mem_encodeUtf8_iff]
    decide
  · obtain rfl := Option.some.inj ((utf8_decode_encodeUtf8 _).symm.trans decodes)
    exact ⟨rfl, by decide⟩

open SmallRepo SmallCapsule in
/-- A source with the line ends of another system loses them, in the snapshot and in what the
merger writes. -/
theorem not_seeding_preserves :
    ¬Recreates (repo "x = 1\r\n") (Simulator.place root)
        (Script.runOn (Simulator.materializeSnapshot root (snapshotRepoFiles (repo "x = 1\r\n")))
          (Tree.empty.made (Simulator.place root))) ∧
      ¬WritesBack utf8 (encodeUtf8 "x = 1\r\n") := by
  constructor
  · have does : Does (Simulator.place root)
        (Simulator.materializeSnapshot root (snapshotRepoFiles (repo "x = 1\r\n")))
        (inTurn (putBelow (Simulator.place root)) (snapshotRepoFiles (repo "x = 1\r\n"))) :=
      Does.each fun entry mem =>
        simulator_entry_does root (plain_of_mem (List.Perm.refl _) entry mem)
    rw [run_of_does does (List.Perm.refl _) (emptyRoot_made _)]
    intro none
    have included := (included_iff "x = 1\r\n" (by decide) _ _).mpr ⟨rfl, rfl⟩
    refine none _ _ included ?_
    rw [carriage_mem_encodeUtf8_iff]
    decide
  · rw [writesBack_iff]
    intro back
    exact (back _ (utf8_decode_encodeUtf8 _)).2 (by decide)

end KernelOmega
