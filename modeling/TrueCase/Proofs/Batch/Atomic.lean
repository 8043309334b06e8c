import TrueCase.Proofs.Batch.Run

/-!
# Runs that fail

A run fails only before it has come to its first file. When the walks are done, each of the
collected paths has a path relative to the root, so the files are gone through to the end, whatever
the writer does to them and says of it.

## Main statements

* `exists_run_fixFiles`: going through files that are below the root comes to an end.
* `fixTreeWith_all_or_nothing`: a run that fails has not called its writer.
-/

namespace TrueCase

variable {options : BatchOptions} {w : World} {paths : List RawPath}

/-- Files that are below the root are gone through to the end, by any writer. -/
theorem exists_run_fixFiles (write : Writer (StateM World)) (index : FileIndex) (tally : Tally)
    (hname : ∀ path ∈ paths, ∃ name, RawPath.relativeTo? options.root path = some name)
    (w : World) : ∃ tally' w',
      (fixFiles World.host write options index tally paths).run w = (.ok tally', w') := by
  induction paths generalizing tally w with
  | nil => exact ⟨tally, w, rfl⟩
  | cons path paths ih =>
    obtain ⟨hfirst, hrest⟩ := List.forall_mem_cons.1 hname
    obtain ⟨name, hrel⟩ := hfirst
    obtain ⟨⟨tally₁, w₁⟩, hrun⟩ : ∃ result, (fixFile World.host write options index tally path
        (nameBelow options.root path)).run w = result := ⟨_, rfl⟩
    rw [run_fixFiles_cons hrel hrun]
    exact ih tally₁ hrest w₁

/-- A run succeeds if its walk does, by any writer. -/
theorem exists_run_fixTreeWith (write : Writer (StateM World))
    (hcollect : w.files.collect options.filter options.root = .ok paths) :
    ∃ report w', (fixTreeWith World.host write options).run w = (.ok report, w') := by
  have hname := Node.exists_relativeTo?_of_mem_collect hcollect
  obtain ⟨said, htree⟩ := run_fixTreeWith options hcollect hname
  obtain ⟨tally, w', hrun⟩ := exists_run_fixFiles write (indexBelow options.root paths) {} hname
    { w with said }
  exact ⟨_, w', htree write tally w' hrun⟩

/-- Errors come before any change. A run that fails leaves the tree as it was. It comes to the same
with every other writer, so its own one has not been called. And once the walk has succeeded, each
of the collected paths has a path relative to the root, and there is a report. -/
theorem fixTreeWith_all_or_nothing (options : BatchOptions) (w : World) :
    (∀ write failure w', (fixTreeWith World.host write options).run w = (.error failure, w') →
      w'.files = w.files ∧
        ∀ other, (fixTreeWith World.host other options).run w = (.error failure, w')) ∧
    ∀ paths, w.files.collect options.filter options.root = .ok paths →
      (∀ path ∈ paths, ∃ name, relativePath options.root path = .ok name) ∧
        ∀ write, ∃ report w', (fixTreeWith World.host write options).run w = (.ok report, w') := by
  constructor
  · intro write failure w' hrun
    cases hcollect : w.files.collect options.filter options.root with
    | error e =>
      have hall (write) := run_fixTreeWith_eq_error options write hcollect
      rw [hall write] at hrun
      cases hrun
      exact ⟨rfl, hall⟩
    | ok paths =>
      obtain ⟨report, w₁, hok⟩ := exists_run_fixTreeWith write hcollect
      rw [hok] at hrun
      cases hrun
  · intro paths hcollect
    refine ⟨fun path hpath => ?_, fun write => exists_run_fixTreeWith write hcollect⟩
    obtain ⟨name, hname⟩ := Node.exists_relativeTo?_of_mem_collect hcollect path hpath
    exact ⟨_, relativePath_eq hname⟩

/-- A writer that removes all files of the tree, and then fails. -/
def removeAll : Writer (StateM World) := fun path _ => do
  modify fun world => { world with files := .empty }
  return .error (.cannotWrite path .notFound)

/-- Where there is no root nothing is removed by a writer that would. Where there is one, however it
is spelled, the run comes to an end with that writer as well. -/
theorem fixTreeWith_removeAll :
    (∃ failure w', (fixTreeWith World.host removeAll
        { sampleOptions with root := RawPath.ofText "src".toList }).run sampleWorld =
          (.error failure, w') ∧ w'.files = sampleWorld.files) ∧
      ∃ report w', (fixTreeWith World.host removeAll
        { sampleOptions with root := RawPath.ofText "/.././/".toList }).run sampleWorld =
          (.ok report, w') := by
  constructor
  · have hfail : ((fixTreeWith World.host removeAll
        { sampleOptions with root := RawPath.ofText "src".toList }).run
          sampleWorld).1.toOption = none := by
      decide +kernel
    cases hrun : (fixTreeWith World.host removeAll
        { sampleOptions with root := RawPath.ofText "src".toList }).run sampleWorld with
    | mk result w' =>
      rw [hrun] at hfail
      cases result with
      | ok report => cases hfail
      | error failure =>
        exact ⟨failure, w', rfl, ((fixTreeWith_all_or_nothing _ _).1 removeAll failure w' hrun).1⟩
  · have hsome : (sampleWorld.files.collect sampleOptions.filter
        (RawPath.ofText "/.././/".toList)).toOption.isSome = true := by
      decide +kernel
    cases hcollect : sampleWorld.files.collect sampleOptions.filter
        (RawPath.ofText "/.././/".toList) with
    | error e =>
      rw [hcollect] at hsome
      cases hsome
    | ok paths => exact ((fixTreeWith_all_or_nothing _ _).2 paths hcollect).2 removeAll

end TrueCase
