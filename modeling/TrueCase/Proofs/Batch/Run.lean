import TrueCase.Batch.Run
import TrueCase.Batch.World
import TrueCase.Proofs.FileSystem.Walk
import TrueCase.Proofs.Import.Fix

/-!
# A run over its files

A run deals with its files one after the other. As no two of their paths name the same file, each
file is read as it was at the start, and what is recorded and left behind is said file by file. This
holds whichever files the writer refuses.

## Main definitions

* `Node.readText`: the text of the file that a path names.
* `outcomes`: the outcomes for those of the given paths that can be read.
* `Writes`: a writer that overwrites some files and refuses the others.
* `Passed`: what going through the files at the given paths records and keeps in any case.
* `Fixed`: what fixing the files at the given paths records and leaves behind.

## Main statements

* `Passed.trans`, `Fixed.trans`: some files after others.
* `run_fixFile`, `run_fixFiles_cons`, `run_fixTreeWith`: a run of all files opened up to `settle`, in
  which something is done about a file that has been read.
* `fixed_of_fixFile`: one file is fixed.
* `fixed_of_fixFiles`: files are fixed one after the other.
* `fixed_of_fixTreeWith`: a run fixes the files that its walk collects.
-/

namespace TrueCase

/-- The text of the file that a path names. -/
def Node.readText (top : Node) (path : RawPath) : Except Failure Text :=
  match top.read path with
  | .error e => .error (.cannotRead path e)
  | .ok bytes =>
    match Utf8.decode? bytes with
    | none => .error (.cannotRead path .notText)
    | some text => .ok text

theorem Node.readText_eq_ok_iff {top : Node} {path : RawPath} {text : Text} :
    top.readText path = .ok text ↔ top.read path = .ok (Utf8.encode text) := by
  unfold readText
  cases top.read path with
  | error e => simp
  | ok bytes =>
    rw [Except.ok.injEq, ← Utf8.decode?_eq_some_iff]
    cases h : Utf8.decode? bytes <;> simp [h]

theorem Node.readText_congr {top top' : Node} {path : RawPath}
    (h : top.read path = top'.read path) : top.readText path = top'.readText path := by
  rw [readText, readText, h]

/-! ## The operations of a world -/

namespace World

/-- What two actions do one after the other. -/
theorem run_bind {α β : Type} (x : StateM World α) (f : α → StateM World β) (w : World) :
    (x >>= f).run w = (f (x.run w).1).run (x.run w).2 := rfl

variable (w : World)

theorem run_tellAll (messages : List Message) :
    (host.tellAll messages).run w = ((), { w with said := messages.reverse ++ w.said }) := by
  induction messages generalizing w with
  | nil => rfl
  | cons message messages ih =>
    refine (ih _).trans ?_
    simp

@[simp] theorem run_collect (root : RawPath) (filter : Filter) :
    (host.collect root filter).run w = (w.files.collect filter root, w) := rfl

@[simp] theorem run_read (path : RawPath) :
    (host.read path).run w = (w.files.read path, w) := rfl

@[simp] theorem run_write (path : RawPath) (content : Text) :
    (host.write path content).run w = write path content w := rfl

@[simp] theorem run_tell (message : Message) :
    (host.tell message).run w = ((), { w with said := message :: w.said }) := rfl

@[simp] theorem run_now : host.now.run w = (w.clock, w) := rfl

@[simp] theorem run_readText (path : RawPath) :
    (host.readText path).run w = (w.files.readText path, w) := by
  simp only [Host.readText, Node.readText, run_bind, run_read]
  cases w.files.read path with
  | error e => rfl
  | ok bytes =>
    cases h : Utf8.decode? bytes <;> simp only [h] <;> rfl

/-- A file that can be read is overwritten. -/
theorem run_overwrite {path : RawPath} {place : Place} {old : Bytes}
    (h : w.files.locate .target path = .ok place) (hat : w.files.at? place = some (.file old))
    (content : Text) : (host.overwrite path content).run w =
      (.ok (), { w with files := .set (.file (Utf8.encode content)) place w.files }) := by
  simp only [Host.overwrite, run_bind, run_write, write, Node.write_eq h hat]
  rfl

end World

/-! ## One file -/

/-- The path of a collected file relative to the root. -/
def nameBelow (root path : RawPath) : Text :=
  (RawPath.relativeTo? root path).getD []

theorem relativePath_eq {root path : RawPath} {name : Text}
    (h : RawPath.relativeTo? root path = some name) :
    relativePath root path = .ok (nameBelow root path) := by
  rw [relativePath, nameBelow, h]
  rfl

/-- The outcomes for the files at the given paths, but for those that cannot be read. -/
def outcomes (index : FileIndex) (root : RawPath) (files : Node) (paths : List RawPath) :
    List (RawPath × Outcome) :=
  paths.filterMap fun path =>
    match files.readText path with
    | .ok text => some (path, fixSource index (nameBelow root path) text)
    | .error _ => none

theorem mem_outcomes {index : FileIndex} {root : RawPath} {files : Node} {paths : List RawPath}
    {o : RawPath × Outcome} (h : o ∈ outcomes index root files paths) :
    o.1 ∈ paths ∧ ∃ source, files.readText o.1 = .ok source ∧
      o.2 = fixSource index (nameBelow root o.1) source := by
  obtain ⟨path, hpath, hsome⟩ := List.mem_filterMap.1 h
  split at hsome
  · next source hsource =>
    cases hsome
    exact ⟨hpath, source, hsource, rfl⟩
  · cases hsome

theorem outcomes_congr {index : FileIndex} {root : RawPath} {files files' : Node}
    {paths : List RawPath} (h : ∀ path ∈ paths, files.readText path = files'.readText path) :
    outcomes index root files paths = outcomes index root files' paths :=
  List.filterMap_congr fun path hpath => by rw [h path hpath]

/-- A writer that overwrites the files at the accepted paths, and leaves all others alone. -/
structure Writes (write : Writer (StateM World)) (accepts : RawPath → Bool) : Prop where
  accept : ∀ path content w, accepts path = true →
    (write path content).run w = (World.host.overwrite path content).run w
  refuse : ∀ path content w, accepts path = false →
    ∃ failure, (write path content).run w = (.error failure, w)

theorem writes_overwrite : Writes World.host.overwrite fun _ => true where
  accept _ _ _ _ := rfl
  refuse _ _ _ h := by cases h

/-- What going through the files at the given paths records, whatever is done about them, and what it
keeps of the tree. -/
structure Passed (index : FileIndex) (root : RawPath) (paths : List RawPath) (before after : Node)
    (tally tally' : Tally) : Prop where
  issues : tally'.issues = tally.issues ++ (outcomes index root before paths).flatMap (·.2.issues)
  scanned : tally'.scanned = tally.scanned + (outcomes index root before paths).length
  /-- The names and links are what they were. -/
  shape : after.shape = before.shape
  /-- What the paths do not name is what it was. -/
  read : ∀ path, (∀ p ∈ paths, before.Apart p path) → after.read path = before.read path

/-- What fixing the files at the given paths records, and what it leaves behind. -/
structure Fixed (accepts : RawPath → Bool) (index : FileIndex) (root : RawPath)
    (paths : List RawPath) (before after : Node) (tally tally' : Tally) : Prop extends
    Passed index root paths before after tally tally' where
  fixes : tally'.fixes = tally.fixes ++
    ((outcomes index root before paths).filter (accepts ·.1)).flatMap (·.2.fixes)
  changed : tally'.changed = tally.changed +
    ((outcomes index root before paths).filter fun o => accepts o.1 && o.2.changed).length
  /-- A file that can be read and written has its fixed content. -/
  text : ∀ path ∈ paths, after.readText path = if accepts path then
    (before.readText path).map fun text => (fixSource index (nameBelow root path) text).content
    else before.readText path
  /-- A changed file that can be written holds the bytes of its fixed content. -/
  written : ∀ o ∈ outcomes index root before paths, accepts o.1 = true → o.2.changed = true →
    after.read o.1 = .ok (Utf8.encode o.2.content)
  /-- Every other file of the tree is what it was. -/
  kept : ∀ place, (∀ o ∈ outcomes index root before paths, accepts o.1 = true →
      o.2.changed = true → before.locate .target o.1 ≠ .ok place) →
    ∀ content, after.at? place = some (.file content) ↔ before.at? place = some (.file content)
  /-- Without anything to write, the tree is what it was. -/
  same : (∀ o ∈ outcomes index root before paths, accepts o.1 = true → o.2.changed = false) →
    after = before

section

variable {accepts : RawPath → Bool} {index : FileIndex} {root : RawPath}

section

variable {first rest : List RawPath} {before between after : Node} {t t' t'' : Tally}

theorem outcomes_append (h : Passed index root first before between t t')
    (hapart : ∀ p ∈ first, ∀ q ∈ rest, before.Apart p q) :
    outcomes index root before (first ++ rest) =
      outcomes index root before first ++ outcomes index root between rest := by
  have hkept : ∀ q ∈ rest, between.readText q = before.readText q := fun q hq =>
    Node.readText_congr (h.read q fun p hp => hapart p hp q hq)
  rw [outcomes_congr hkept]
  exact List.filterMap_append

/-- Some files after others. -/
theorem Passed.trans (h : Passed index root first before between t t')
    (h' : Passed index root rest between after t' t'')
    (hapart : ∀ p ∈ first, ∀ q ∈ rest, before.Apart p q) :
    Passed index root (first ++ rest) before after t t'' := by
  have hall := outcomes_append h hapart
  constructor
  · rw [h'.issues, h.issues, hall, List.flatMap_append, List.append_assoc]
  · rw [h'.scanned, h.scanned, hall, List.length_append, Nat.add_assoc]
  · rw [h'.shape, h.shape]
  · intro path hpath
    rw [h'.read path fun q hq => (Node.apart_congr h.shape).2
        (hpath q (List.mem_append_right first hq)),
      h.read path fun p hp => hpath p (List.mem_append_left rest hp)]

/-- What has been done to some files is not undone by going on to others. -/
theorem Passed.read_of_first (h : Passed index root first before between t t')
    (h' : Passed index root rest between after t' t'')
    (hapart : ∀ p ∈ first, ∀ q ∈ rest, before.Apart p q) {path : RawPath} (hpath : path ∈ first) :
    after.read path = between.read path :=
  h'.read path fun q hq => (Node.apart_congr h.shape).2 (hapart path hpath q hq).symm

theorem Fixed.trans (h : Fixed accepts index root first before between t t')
    (h' : Fixed accepts index root rest between after t' t'')
    (hapart : ∀ p ∈ first, ∀ q ∈ rest, before.Apart p q) :
    Fixed accepts index root (first ++ rest) before after t t'' := by
  have hall := outcomes_append h.toPassed hapart
  have hfirst {path : RawPath} (hpath : path ∈ first) : after.read path = between.read path :=
    h.toPassed.read_of_first h'.toPassed hapart hpath
  refine ⟨h.toPassed.trans h'.toPassed hapart, ?_, ?_, ?_, ?_, ?_, ?_⟩
  · rw [h'.fixes, h.fixes, hall, List.filter_append, List.flatMap_append, List.append_assoc]
  · rw [h'.changed, h.changed, hall, List.filter_append, List.length_append, Nat.add_assoc]
  · intro path hpath
    rcases List.mem_append.1 hpath with hp | hq
    · rw [← h.text path hp]
      exact Node.readText_congr (hfirst hp)
    · rw [h'.text path hq,
        Node.readText_congr (h.read path fun p hp => hapart p hp path hq)]
  · rw [hall, List.forall_mem_append]
    refine ⟨fun o ho haccepts hchanged => ?_, h'.written⟩
    rw [hfirst (mem_outcomes ho).1]
    exact h.written o ho haccepts hchanged
  · intro place hnot content
    rw [hall, List.forall_mem_append] at hnot
    refine (h'.kept place ?_ content).trans (h.kept place hnot.1 content)
    intro o ho haccepts hchanged
    rw [Node.locate_congr h.shape]
    exact hnot.2 o ho haccepts hchanged
  · intro hnone
    rw [hall, List.forall_mem_append] at hnone
    rw [h'.same hnone.2, h.same hnone.1]

end

section

variable {files : Node} {path : RawPath} {source : Text} {tally tally' : Tally}

theorem outcomes_singleton (h : files.readText path = .ok source) :
    outcomes index root files [path] =
      [(path, fixSource index (nameBelow root path) source)] := by
  simp [outcomes, h]

theorem outcomes_unread {failure : Failure} (h : files.readText path = .error failure) :
    outcomes index root files [path] = [] := by
  simp [outcomes, h]

theorem passed_nil : Passed index root [] files files tally tally := by
  constructor <;> simp [outcomes]

theorem passed_of_unread {failure : Failure} (h : files.readText path = .error failure) :
    Passed index root [path] files files tally tally := by
  constructor <;> simp [outcomes_unread h]

theorem passed_of_unwritten (h : files.readText path = .ok source)
    (hissues : tally'.issues =
      tally.issues ++ (fixSource index (nameBelow root path) source).issues)
    (hscanned : tally'.scanned = tally.scanned + 1) :
    Passed index root [path] files files tally tally' := by
  constructor <;> simp [outcomes_singleton h, hissues, hscanned]

theorem passed_of_written (h : files.readText path = .ok source) {place : Place} {old : Bytes}
    (hloc : files.locate .target path = .ok place) (hat : files.at? place = some (.file old))
    (content : Bytes) (hissues : tally'.issues =
      tally.issues ++ (fixSource index (nameBelow root path) source).issues)
    (hscanned : tally'.scanned = tally.scanned + 1) :
    Passed index root [path] files (.set (.file content) place files) tally tally' := by
  constructor
  case shape => exact Node.shape_set hat _
  case read =>
    intro q hq
    refine Node.read_set_of_ne (fun hlocq => ?_) hat _
    exact hq path List.mem_cons_self place (Node.at?_shape_eq_file_iff.2 ⟨old, hat⟩) ⟨hloc, hlocq⟩
  all_goals simp [outcomes_singleton h, hissues, hscanned]

theorem fixed_of_unread {failure : Failure} (h : files.readText path = .error failure) :
    Fixed accepts index root [path] files files tally tally := by
  refine ⟨passed_of_unread h, ?fixes, ?changed, ?text, ?written, ?kept, ?same⟩
  case text =>
    intro p hp
    obtain rfl := List.mem_singleton.1 hp
    rw [h]
    split <;> rfl
  all_goals simp [outcomes_unread h]

theorem fixed_of_unwritten (h : files.readText path = .ok source)
    (hnot : accepts path = true → (fixSource index (nameBelow root path) source).fixes = []) :
    Fixed accepts index root [path] files files tally
      (tally.scan (fixSource index (nameBelow root path) source)) := by
  have hunchanged : accepts path = true →
      (fixSource index (nameBelow root path) source).changed = false := fun ha => by
    rw [Outcome.changed, hnot ha]
    rfl
  refine ⟨passed_of_unwritten h rfl rfl, ?fixes, ?changed, ?text, ?written, ?kept, ?same⟩
  case text =>
    intro p hp
    obtain rfl := List.mem_singleton.1 hp
    split
    · next ha => rw [h, Except.map, content_fixSource_of_fixes_eq_nil (hnot ha)]
    · rfl
  case fixes =>
    cases ha : accepts path with
    | false => simp [outcomes_singleton h, Tally.scan, ha]
    | true => simp [outcomes_singleton h, Tally.scan, hnot ha]
  case changed =>
    cases ha : accepts path with
    | false => simp [outcomes_singleton h, Tally.scan, ha]
    | true => simp [outcomes_singleton h, Tally.scan, hunchanged ha]
  case written =>
    rw [outcomes_singleton h, List.forall_mem_singleton]
    intro ha hchanged
    cases (hunchanged ha).symm.trans hchanged
  all_goals simp

theorem fixed_of_written (h : files.readText path = .ok source) {place : Place} {old : Bytes}
    (hloc : files.locate .target path = .ok place) (hat : files.at? place = some (.file old))
    (hchanged : (fixSource index (nameBelow root path) source).changed = true)
    (haccepts : accepts path = true) :
    Fixed accepts index root [path] files
      (.set (.file (Utf8.encode (fixSource index (nameBelow root path) source).content)) place
        files)
      tally ((tally.scan (fixSource index (nameBelow root path) source)).record .fix
        (fixSource index (nameBelow root path) source)) := by
  refine ⟨passed_of_written h hloc hat _ rfl rfl, ?fixes, ?changed, ?text, ?written, ?kept, ?same⟩
  case text =>
    intro p hp
    obtain rfl := List.mem_singleton.1 hp
    rw [if_pos haccepts, h]
    exact Node.readText_eq_ok_iff.2 (Node.read_set_self hloc hat _)
  case written =>
    rw [outcomes_singleton h, List.forall_mem_singleton]
    exact fun _ _ => Node.read_set_self hloc hat _
  case kept =>
    intro other hnot
    rw [outcomes_singleton h, List.forall_mem_singleton] at hnot
    refine Node.at?_set_of_ne hat _ ?_
    rintro rfl
    exact hnot haccepts hchanged hloc
  case same =>
    intro hnone
    have hnot := hnone _ (by rw [outcomes_singleton h]; exact List.mem_cons_self) haccepts
    cases hnot.symm.trans hchanged
  all_goals simp [outcomes_singleton h, Tally.scan, Tally.record, haccepts, hchanged]

end

variable {write : Writer (StateM World)} (hwrite : Writes write accepts)

include hwrite

theorem run_writeOutcome_accept {path : RawPath} (ha : accepts path = true) {w : World}
    {place : Place} {old : Bytes} (hloc : w.files.locate .target path = .ok place)
    (hat : w.files.at? place = some (.file old)) (current : Text) (outcome : Outcome) :
    ∃ said, (writeOutcome World.host write path current outcome).run w = (true,
      { w with files := .set (.file (Utf8.encode outcome.content)) place w.files, said }) := by
  unfold writeOutcome
  rw [World.run_bind, hwrite.accept path outcome.content w ha, World.run_overwrite w hloc hat]
  exact ⟨_, rfl⟩

theorem run_writeOutcome_refuse {path : RawPath} (ha : accepts path = false) (w : World)
    (current : Text) (outcome : Outcome) :
    ∃ said, (writeOutcome World.host write path current outcome).run w =
      (false, { w with said }) := by
  unfold writeOutcome
  obtain ⟨failure, hrun⟩ := hwrite.refuse path outcome.content w ha
  rw [World.run_bind, hrun]
  exact ⟨_, rfl⟩

omit hwrite

/-- What is done about a file once its text has been read. -/
def settle (write : Writer (StateM World)) (mode : Mode) (tally : Tally) (path : RawPath)
    (current : Text) (outcome : Outcome) : StateM World Tally := do
  if outcome.changed then
    if ← applyOutcome World.host write mode path current outcome then
      return (tally.scan outcome).record mode outcome
  return tally.scan outcome

theorem run_fixFile_of_unread (write : Writer (StateM World)) (options : BatchOptions)
    (index : FileIndex) (tally : Tally) {path : RawPath} (current : Text) {w : World}
    {failure : Failure} (h : w.files.readText path = .error failure) :
    (fixFile World.host write options index tally path current).run w =
      (tally, { w with said := .warning failure :: w.said }) := by
  simp only [fixFile, World.run_bind, World.run_readText, h]
  rfl

theorem run_fixFile (options : BatchOptions) (index : FileIndex) (tally : Tally) {path : RawPath}
    (current : Text) {w : World} {source : Text} (h : w.files.readText path = .ok source) :
    ∃ said, ∀ write, (fixFile World.host write options index tally path current).run w =
      (settle write options.mode tally path current (fixSource index current source)).run
        { w with said } := by
  unfold fixFile
  simp only [World.run_bind, World.run_readText, h]
  split
  · simp only [World.run_bind, World.run_tellAll]
    exact ⟨_, fun _ => rfl⟩
  · exact ⟨w.said, fun _ => rfl⟩

theorem run_fixFiles_cons {host : Host (StateM World)} {write : Writer (StateM World)}
    {options : BatchOptions} {tally tally' : Tally} {path : RawPath} {name : Text} {w w' : World}
    (hname : RawPath.relativeTo? options.root path = some name)
    (hrun : (fixFile host write options index tally path
      (nameBelow options.root path)).run w = (tally', w')) (paths : List RawPath) :
    (fixFiles host write options index tally (path :: paths)).run w =
      (fixFiles host write options index tally' paths).run w' := by
  rw [fixFiles, relativePath_eq hname]
  dsimp only
  rw [World.run_bind, hrun]

include hwrite

variable {options : BatchOptions} (hmode : options.mode = .fix)

include hmode

/-- One file is fixed. -/
theorem fixed_of_fixFile (tally : Tally) (path : RawPath) (w : World) :
    ∃ tally' w', (fixFile World.host write options index tally path
        (nameBelow options.root path)).run w = (tally', w') ∧
      Fixed accepts index options.root [path] w.files w'.files tally tally' := by
  cases h : w.files.readText path with
  | error failure =>
    exact ⟨_, _, run_fixFile_of_unread write options index tally _ h, fixed_of_unread h⟩
  | ok source =>
    obtain ⟨place, hloc, hat⟩ := Node.read_eq_ok_iff.1 (Node.readText_eq_ok_iff.1 h)
    obtain ⟨said, hrun⟩ := run_fixFile options index tally (nameBelow options.root path) h
    rw [hrun write, settle, hmode]
    dsimp only
    cases hchanged : (fixSource index (nameBelow options.root path) source).changed with
    | false =>
      refine ⟨_, _, rfl, fixed_of_unwritten h fun _ => ?_⟩
      simpa [Outcome.changed] using hchanged
    | true =>
      rw [if_pos rfl, World.run_bind, applyOutcome]
      cases ha : accepts path with
      | true =>
        obtain ⟨said', hwritten⟩ := run_writeOutcome_accept hwrite ha (w := { w with said })
          hloc hat (nameBelow options.root path)
          (fixSource index (nameBelow options.root path) source)
        rw [hwritten]
        exact ⟨_, _, rfl, fixed_of_written h hloc hat hchanged ha⟩
      | false =>
        obtain ⟨said', hrefused⟩ := run_writeOutcome_refuse hwrite ha { w with said }
          (nameBelow options.root path) (fixSource index (nameBelow options.root path) source)
        rw [hrefused]
        refine ⟨_, _, rfl, fixed_of_unwritten h fun haccepts => ?_⟩
        cases ha.symm.trans haccepts

/-- Files are fixed one after the other. -/
theorem fixed_of_fixFiles (tally : Tally) (paths : List RawPath) (w : World)
    (hname : ∀ path ∈ paths, ∃ name, RawPath.relativeTo? options.root path = some name)
    (hapart : paths.Pairwise w.files.Apart) :
    ∃ tally' w', (fixFiles World.host write options index tally paths).run w = (.ok tally', w') ∧
      Fixed accepts index options.root paths w.files w'.files tally tally' := by
  induction paths generalizing tally w with
  | nil =>
    refine ⟨tally, w, rfl, ⟨passed_nil, ?_, ?_, ?_, ?_, ?_, ?_⟩⟩ <;> simp [outcomes]
  | cons path paths ih =>
    obtain ⟨name, hrel⟩ := hname path List.mem_cons_self
    obtain ⟨hfirst, hrest⟩ := List.pairwise_cons.1 hapart
    obtain ⟨tally₁, w₁, hrun₁, hfixed₁⟩ := fixed_of_fixFile hwrite hmode tally path w
    obtain ⟨tally₂, w₂, hrun₂, hfixed₂⟩ := ih tally₁ w₁
      (fun p hp => hname p (List.mem_cons_of_mem path hp))
      (hrest.imp fun h => (Node.apart_congr hfixed₁.shape).2 h)
    refine ⟨tally₂, w₂, (run_fixFiles_cons hrel hrun₁ paths).trans hrun₂, ?_⟩
    exact hfixed₁.trans hfixed₂ (List.forall_mem_singleton.2 hfirst)

end

/-! ## All files -/

/-- The entry of the file at a path below the root. -/
def entryBelow (root path : RawPath) : FileEntry where
  key := (nameBelow root path).lower
  actualPath := nameBelow root path
  fullPath := path
  fileName := ((RawPath.fileName? path).map Utf8.lossy).getD []

/-- The index of the files at the given paths below the root. -/
def indexBelow (root : RawPath) (paths : List RawPath) : FileIndex :=
  FileIndex.ofList (paths.map (entryBelow root))

theorem exists_of_mem_indexBelow {root : RawPath} {paths : List RawPath} {entry : FileEntry}
    (h : entry ∈ (indexBelow root paths).entries) : ∃ path ∈ paths, entryBelow root path = entry :=
  List.mem_map.1 (FileIndex.mem_of_mem_entries_ofList h)

theorem indexOf_eq {root : RawPath} {paths : List RawPath}
    (h : ∀ path ∈ paths, ∃ name, RawPath.relativeTo? root path = some name) :
    indexOf root paths = .ok (indexBelow root paths) := by
  have hentries : paths.mapM (entryOf root) = .ok (paths.map (entryBelow root)) := by
    induction paths with
    | nil => rfl
    | cons path paths ih =>
      obtain ⟨name, hname⟩ := h path List.mem_cons_self
      have hentry : entryOf root path = .ok (entryBelow root path) := by
        rw [entryOf, relativePath_eq hname]
        rfl
      rw [List.mapM_cons, hentry, ih fun p hp => h p (List.mem_cons_of_mem path hp)]
      rfl
  rw [indexOf, hentries]
  rfl

section

variable {accepts : RawPath → Bool} {write : Writer (StateM World)} {options : BatchOptions}
  {w : World} {paths : List RawPath}

theorem World.run_sourceFiles (root : RawPath) (filter : Filter) (w : World) :
    (World.host.sourceFiles root filter).run w =
      ((w.files.collect filter root).mapError (.cannotWalk root), w) := rfl

theorem run_fixTreeWith_eq_error (options : BatchOptions) (write : Writer (StateM World))
    {e : WalkError} (hcollect : w.files.collect options.filter options.root = .error e) :
    (fixTreeWith World.host write options).run w =
      (.error (.cannotWalk options.root e), { w with said := .indexing options.root :: w.said }) := by
  unfold fixTreeWith
  simp only [World.run_bind, World.run_tell, World.run_sourceFiles, hcollect]
  rfl

/-- A run that cannot walk fails. -/
theorem run_fixTreeWith_of_error (write : Writer (StateM World)) {e : WalkError}
    (hcollect : w.files.collect options.filter options.root = .error e) :
    ∃ w', (fixTreeWith World.host write options).run w =
      (.error (.cannotWalk options.root e), w') :=
  ⟨_, run_fixTreeWith_eq_error options write hcollect⟩

/-- A run succeeds if its walk does and its files are gone through. -/
theorem run_fixTreeWith (options : BatchOptions)
    (hcollect : w.files.collect options.filter options.root = .ok paths)
    (hname : ∀ path ∈ paths, ∃ name, RawPath.relativeTo? options.root path = some name) :
    ∃ said, ∀ write tally w',
      (fixFiles World.host write options (indexBelow options.root paths) {} paths).run
        { w with said } = (.ok tally, w') →
      (fixTreeWith World.host write options).run w =
        (.ok (tally.report options.mode (indexBelow options.root paths).size w'.clock), w') := by
  refine ⟨.scanning :: .indexed (indexBelow options.root paths).size ::
    .indexing options.root :: w.said, fun write tally w' hrun => ?_⟩
  unfold fixTreeWith
  simp only [World.run_bind, World.run_tell, World.run_sourceFiles, hcollect, Except.mapError,
    Except.bind, indexOf_eq hname, hrun, World.run_now]
  rfl

/-- A run that fixes succeeds if the walk does, and it fixes the files that are collected. -/
theorem fixed_of_fixTreeWith (hwrite : Writes write accepts) (hmode : options.mode = .fix)
    (hcollect : w.files.collect options.filter options.root = .ok paths)
    (hname : ∀ path ∈ paths, ∃ name, RawPath.relativeTo? options.root path = some name)
    (hapart : paths.Pairwise w.files.Apart) :
    ∃ tally w', (fixTreeWith World.host write options).run w =
        (.ok (tally.report .fix (indexBelow options.root paths).size w'.clock), w') ∧
      Fixed accepts (indexBelow options.root paths) options.root paths w.files w'.files {}
        tally := by
  obtain ⟨said, htree⟩ := run_fixTreeWith options hcollect hname
  obtain ⟨tally, w', hrun, hfixed⟩ :=
    @fixed_of_fixFiles accepts (indexBelow options.root paths) write hwrite options hmode {} paths
      { w with said } hname hapart
  rw [htree write tally w' hrun, hmode]
  exact ⟨tally, w', rfl, hfixed⟩

end

/-! ## A sample -/

/-- A tree in which one file imports the other with a wrong letter. -/
def sampleWorld : World :=
  .ofFiles (.directory
    [(RawPath.ofText "App.ts".toList, .file (Utf8.encode "from './button'".toList)),
      (RawPath.ofText "Button.ts".toList, .file [])]) []

/-- A run that fixes all files there are. -/
def sampleOptions : BatchOptions where
  root := RawPath.ofText ['/']
  filter := .empty
  mode := .fix
  verbose := false

theorem wellFormed_sample : sampleWorld.files.WellFormed := by
  simp only [sampleWorld, World.ofFiles, Node.WellFormed, Node.WellFormedEntries]
  decide

end TrueCase
