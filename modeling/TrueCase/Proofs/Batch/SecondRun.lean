import TrueCase.Proofs.Batch.Run

/-!
# A second run finds nothing

A run leaves every specifier of its files as fixing leaves it, and it keeps the names of the tree,
so a second run works with the same index. Where the paths below the root are tame and no text holds
a capital sigma, it has nothing to fix.

## Main definitions

* `Node.TameBelow`: the condition on the source files below a root.

## Main statements

* `fixTree_again`: a second run fixes nothing and reports the same missing specifiers.
-/

namespace TrueCase

/-- The source files below the root have tame paths, and texts without a capital sigma. -/
def Node.TameBelow (files : Node) (filter : Filter) (root : RawPath) : Prop :=
  ∀ paths, files.collect filter root = .ok paths → ∀ path ∈ paths,
    (∀ name, relativePath root path = .ok name → Tame name) ∧
      ∀ text, files.readText path = .ok text → 'Σ' ∉ text

section

variable {root : RawPath} {paths : List RawPath} {before between after : Node}

/-- The outcomes for files that have been fixed are those for the contents that fixing gave them. -/
theorem outcomes_of_text {index : FileIndex}
    (h : ∀ path ∈ paths, after.readText path = (before.readText path).map
      fun text => (fixSource index (nameBelow root path) text).content) :
    outcomes index root after paths = (outcomes index root before paths).map
      fun o => (o.1, fixSource index (nameBelow root o.1) o.2.content) := by
  unfold outcomes
  rw [List.map_filterMap]
  refine List.filterMap_congr fun path hpath => ?_
  rw [h path hpath]
  cases before.readText path <;> rfl

variable (hnormal : ∀ path ∈ paths, Path.Normal (nameBelow root path))
  (htame : ∀ path ∈ paths, Tame (nameBelow root path))
  (htext : ∀ path ∈ paths, ∀ text, before.readText path = .ok text → 'Σ' ∉ text)

include hnormal htame htext

/-- Fixing the fixed content of a file finds nothing to do. -/
theorem fixSource_content_of_mem_outcomes {o : RawPath × Outcome}
    (ho : o ∈ outcomes (indexBelow root paths) root before paths) :
    let again := fixSource (indexBelow root paths) (nameBelow root o.1) o.2.content
    again.fixes = [] ∧ again.issues.map (fun i => (i.file, i.specifier)) =
      o.2.issues.map fun i => (i.file, i.specifier) := by
  obtain ⟨hpath, source, hsource, heq⟩ := mem_outcomes ho
  have hentries : ∀ entry ∈ (indexBelow root paths).entries, Tame entry.actualPath := by
    intro entry he
    obtain ⟨path, hp, rfl⟩ := exists_of_mem_indexBelow he
    exact htame path hp
  have hindex : (indexBelow root paths).Normal := by
    intro entry he
    obtain ⟨path, hp, rfl⟩ := exists_of_mem_indexBelow he
    exact ⟨hnormal path hp, rfl⟩
  rw [heq]
  exact fixSource_content_fixSource hindex (hnormal o.1 hpath) hentries
    (htame o.1 hpath).sigma_not_mem (htext o.1 hpath source hsource)

/-- Fixing files that have been fixed records nothing but the missing specifiers. -/
theorem tally_of_fixed_again {tally tally' : Tally}
    (h : Fixed (fun _ => true) (indexBelow root paths) root paths before between {} tally)
    (h' : Fixed (fun _ => true) (indexBelow root paths) root paths between after {} tally') :
    tally'.fixes = [] ∧ tally'.changed = 0 ∧ after = between ∧
      tally'.issues.map (fun i => (i.file, i.specifier)) =
        tally.issues.map fun i => (i.file, i.specifier) := by
  have houtcomes : outcomes (indexBelow root paths) root between paths =
      (outcomes (indexBelow root paths) root before paths).map fun o =>
        (o.1, fixSource (indexBelow root paths) (nameBelow root o.1) o.2.content) :=
    outcomes_of_text h.text
  have hagain {o : RawPath × Outcome}
      (ho : o ∈ outcomes (indexBelow root paths) root before paths) :=
    fixSource_content_of_mem_outcomes hnormal htame htext ho
  have hfixes : ∀ o ∈ outcomes (indexBelow root paths) root between paths, o.2.fixes = [] := by
    rw [houtcomes]
    intro o ho
    obtain ⟨o', ho', rfl⟩ := List.mem_map.1 ho
    exact (hagain ho').1
  have hchanged : ∀ o ∈ outcomes (indexBelow root paths) root between paths,
      o.2.changed = false := by
    intro o ho
    rw [Outcome.changed, hfixes o ho]
    rfl
  refine ⟨?_, ?_, h'.same fun o ho _ => hchanged o ho, ?_⟩
  · refine h'.fixes.trans (List.flatMap_eq_nil_iff.2 fun o ho => ?_)
    exact hfixes o (List.mem_filter.1 ho).1
  · rw [h'.changed, List.filter_eq_nil_iff.2 fun o ho => by simp [hchanged o ho]]
    rfl
  · rw [h'.issues, h.issues, houtcomes, List.map_append, List.map_append, List.flatMap_map,
      List.map_flatMap, List.map_flatMap]
    exact congrArg _ (List.flatMap_congr fun o ho => (hagain ho).2)

end

/-- After a run in mode `fix`, a second one fixes nothing, changes no file, and reports the same
specifiers of the same files in the same order. Every write of the first run succeeds, because a
file that can be read can be written. -/
theorem fixTree_again {options : BatchOptions} (hmode : options.mode = .fix) {w w₁ : World}
    {report : Report} (hfiles : w.files.WellFormed)
    (htame : w.files.TameBelow options.filter options.root)
    (hrun : (fixTree World.host options).run w = (.ok report, w₁)) :
    ∃ again w₂, (fixTree World.host options).run w₁ = (.ok again, w₂) ∧
      again.fixes = [] ∧ again.counts.filesChanged = 0 ∧ w₂.files = w₁.files ∧
      again.issues.map (fun i => (i.file, i.specifier)) =
        report.issues.map (fun i => (i.file, i.specifier)) := by
  cases hcollect : w.files.collect options.filter options.root with
  | error e =>
    obtain ⟨w', hfail⟩ := run_fixTreeWith_of_error World.host.overwrite hcollect
    cases hrun.symm.trans hfail
  | ok paths =>
    have hbelow := Node.relativeTo?_of_collect hfiles hcollect
    have hname : ∀ path ∈ paths, ∃ name, RawPath.relativeTo? options.root path = some name :=
      fun path hpath => (hbelow path hpath).imp fun _ h => h.1
    have hapart := Node.pairwise_apart_of_collect hfiles hcollect
    obtain ⟨tally, w', hfirst, hfixed⟩ :=
      fixed_of_fixTreeWith writes_overwrite hmode hcollect hname hapart
    cases hrun.symm.trans hfirst
    -- the second walk collects the same paths, since the first run has kept the names
    obtain ⟨tally', w₂, hsecond, hfixed'⟩ := fixed_of_fixTreeWith writes_overwrite hmode
      ((Node.collect_congr hfixed.shape _ _).trans hcollect) hname
      (hapart.imp (Node.apart_congr hfixed.shape).2)
    have hnormal : ∀ path ∈ paths, Path.Normal (nameBelow options.root path) := by
      intro path hpath
      obtain ⟨name, hrel, hn⟩ := hbelow path hpath
      rwa [nameBelow, hrel]
    have hquiet : ∀ path ∈ paths, Tame (nameBelow options.root path) := by
      intro path hpath
      obtain ⟨name, hrel⟩ := hname path hpath
      exact (htame paths hcollect path hpath).1 _ (relativePath_eq hrel)
    exact ⟨_, w₂, hsecond, tally_of_fixed_again hnormal hquiet
      (fun path hpath => (htame paths hcollect path hpath).2) hfixed hfixed'⟩

theorem tameBelow_sample :
    sampleWorld.files.TameBelow sampleOptions.filter sampleOptions.root := by
  have hcollect : sampleWorld.files.collect sampleOptions.filter sampleOptions.root =
      .ok [RawPath.ofText "/App.ts".toList, RawPath.ofText "/Button.ts".toList] := by
    decide +kernel
  intro paths hpaths
  cases hcollect.symm.trans hpaths
  refine List.forall_mem_cons.2 ⟨?_, List.forall_mem_cons.2 ⟨?_, by simp⟩⟩
  · have hname : relativePath sampleOptions.root (RawPath.ofText "/App.ts".toList) =
        .ok "App.ts".toList := by decide +kernel
    have htext : sampleWorld.files.readText (RawPath.ofText "/App.ts".toList) =
        .ok "from './button'".toList := by decide +kernel
    rw [hname, htext]
    constructor
    · intro name h
      cases h
      decide
    · intro text h
      cases h
      decide
  · have hname : relativePath sampleOptions.root (RawPath.ofText "/Button.ts".toList) =
        .ok "Button.ts".toList := by decide +kernel
    have htext : sampleWorld.files.readText (RawPath.ofText "/Button.ts".toList) = .ok [] := by
      decide +kernel
    rw [hname, htext]
    constructor
    · intro name h
      cases h
      decide
    · intro text h
      cases h
      decide

/-- The second run over the sample tree has nothing to fix, where the first fixes one specifier. -/
theorem fixTree_again_sample : ∃ report w₁ again w₂,
    (fixTree World.host sampleOptions).run sampleWorld = (.ok report, w₁) ∧
      report.fixes.length = 1 ∧
      (fixTree World.host sampleOptions).run w₁ = (.ok again, w₂) ∧ again.fixes = [] := by
  have hfix : ((fixTree World.host sampleOptions).run sampleWorld).1.toOption.map
      (·.fixes.length) = some 1 := by
    decide +kernel
  cases hresult : ((fixTree World.host sampleOptions).run sampleWorld).1 with
  | error e =>
    rw [hresult] at hfix
    cases hfix
  | ok report =>
    rw [hresult] at hfix
    have hrun : (fixTree World.host sampleOptions).run sampleWorld =
        (.ok report, ((fixTree World.host sampleOptions).run sampleWorld).2) :=
      Prod.ext hresult rfl
    obtain ⟨again, w₂, hagain, hnone, -⟩ :=
      fixTree_again rfl wellFormed_sample tameBelow_sample hrun
    exact ⟨report, _, again, w₂, hrun, Option.some.inj hfix, hagain, hnone⟩

end TrueCase
