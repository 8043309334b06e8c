import Mathlib.Data.Char
import Mathlib.Data.List.Lex
import Mathlib.Data.List.Nodup
import TrueCase.Report.Basic

/-!
# Records sorted by file

A stable sort by file keeps the records of each file in the order that they have, and these orders
alone determine its result. So it does not matter in which order the files come.

## Main definitions

* `sortByFile`: the stable sort of records by their files.

## Main statements

* `filter_sortByFile`: the sort is stable.
* `sortByFile_congr`: it is determined by the records of each file.
* `sortByFile_flatMap_perm`: the files may come in any order.
-/

namespace TrueCase

variable {α β : Type}

section

variable (file : α → Text)

/-- Whether the file of `r` comes no later than that of `s`. -/
def comesFirst (r s : α) : Bool :=
  file r ≤ file s

/-- The records in the order of their files. Those of one file stay in the order that they have. -/
def sortByFile (records : List α) : List α :=
  records.mergeSort (comesFirst file)

theorem comesFirst_trans (r s t : α) (hrs : comesFirst file r s = true)
    (hst : comesFirst file s t = true) : comesFirst file r t = true := by
  simp only [comesFirst, decide_eq_true_eq] at *
  exact hrs.trans hst

theorem comesFirst_total (r s : α) : (comesFirst file r s || comesFirst file s r) = true := by
  simpa [comesFirst] using le_total (file r) (file s)

theorem pairwise_sortByFile (records : List α) :
    (sortByFile file records).Pairwise (file · ≤ file ·) :=
  (List.pairwise_mergeSort (comesFirst_trans file) (comesFirst_total file) records).imp fun h => by
    simpa [comesFirst] using h

/-- The sort is stable. -/
theorem filter_sortByFile (records : List α) (name : Text) :
    (sortByFile file records).filter (file · = name) = records.filter (file · = name) := by
  have hperm := (List.mergeSort_perm records (comesFirst file)).filter (file · = name)
  -- the records of one file are sorted as they are, so the sort keeps their order
  have hsorted : (records.filter (file · = name)).Pairwise (comesFirst file · · = true) := by
    refine List.pairwise_of_forall_mem_list fun r hr s hs => ?_
    have hr' : file r = name := by simpa using (List.mem_filter.1 hr).2
    have hs' : file s = name := by simpa using (List.mem_filter.1 hs).2
    simp [comesFirst, hr', hs']
  have hsub : (records.filter (file · = name)).Sublist (sortByFile file records) :=
    List.sublist_mergeSort (comesFirst_trans file) (comesFirst_total file) hsorted
      List.filter_sublist
  have hsub' := hsub.filter (file · = name)
  simp only [List.filter_filter, Bool.and_self] at hsub'
  exact (hsub'.eq_of_length hperm.length_eq.symm).symm

end

variable {file : α → Text}

theorem mem_iff_of_filter_eq {records records' : List α}
    (h : ∀ name, records.filter (file · = name) = records'.filter (file · = name)) (r : α) :
    r ∈ records ↔ r ∈ records' := by
  have hr : r ∈ records.filter (file · = file r) ↔ r ∈ records'.filter (file · = file r) := by
    rw [h]
  simpa using hr

/-- Sorted lists are equal if they have the same records of each file. -/
theorem eq_of_filter_eq {records records' : List α} (hs : records.Pairwise (file · ≤ file ·))
    (hs' : records'.Pairwise (file · ≤ file ·))
    (h : ∀ name, records.filter (file · = name) = records'.filter (file · = name)) :
    records = records' := by
  have hmem := mem_iff_of_filter_eq h
  induction records generalizing records' with
  | nil =>
    cases records' with
    | nil => rfl
    | cons r' records' => simpa using hmem r'
  | cons r records ih =>
    cases records' with
    | nil => simpa using hmem r
    | cons r' records' =>
      rw [List.pairwise_cons] at hs hs'
      -- each of the two heads stands in the other list, so neither has the later file
      have hfile : file r = file r' := by
        have hr : r ∈ r' :: records' := (hmem r).1 List.mem_cons_self
        have hr' : r' ∈ r :: records := (hmem r').2 List.mem_cons_self
        grind
      have hhead := h (file r)
      rw [List.filter_cons_of_pos (by simp), List.filter_cons_of_pos (by simp [hfile])] at hhead
      obtain ⟨rfl, -⟩ := List.cons.inj hhead
      have htail (name : Text) :
          records.filter (file · = name) = records'.filter (file · = name) := by
        have hname := h name
        rw [List.filter_cons, List.filter_cons] at hname
        split at hname
        · exact (List.cons.inj hname).2
        · exact hname
      rw [ih hs.2 hs'.2 htail (mem_iff_of_filter_eq htail)]

/-- The sort is determined by the records of each file. -/
theorem sortByFile_congr {records records' : List α}
    (h : ∀ name, records.filter (file · = name) = records'.filter (file · = name)) :
    sortByFile file records = sortByFile file records' := by
  refine eq_of_filter_eq (pairwise_sortByFile file records) (pairwise_sortByFile file records') ?_
  intro name
  rw [filter_sortByFile, filter_sortByFile, h]

section

variable {items items' : List β} {name : β → Text}

/-- Of things with different names at most one has a given name, and it is found in any order. -/
theorem filter_eq_of_perm (hperm : items.Perm items') (hnodup : (items.map name).Nodup)
    (n : Text) : items.filter (name · = n) = items'.filter (name · = n) := by
  have hfilter := hperm.filter (name · = n)
  have hlength : (items.filter (name · = n)).length ≤ 1 := by
    have hcount := List.nodup_iff_count_le_one.1 hnodup n
    rw [List.count_eq_length_filter, List.filter_map, List.length_map] at hcount
    simpa [Function.comp_def, beq_eq_decide] using hcount
  cases hitems : items.filter (name · = n) with
  | nil =>
    rw [hitems] at hfilter
    exact hfilter.nil_eq
  | cons item rest =>
    rw [hitems] at hlength hfilter
    obtain rfl : rest = [] := List.eq_nil_of_length_eq_zero (by simpa using hlength)
    exact (List.perm_singleton.1 hfilter.symm).symm

/-- The records of one file are those that come of the item with its name. -/
theorem filter_flatMap_eq {records : β → List α}
    (hfile : ∀ item ∈ items, ∀ r ∈ records item, file r = name item) (n : Text) :
    (items.flatMap records).filter (file · = n) =
      (items.filter (name · = n)).flatMap records := by
  induction items with
  | nil => rfl
  | cons item items ih =>
    obtain ⟨hitem, hitems⟩ := List.forall_mem_cons.1 hfile
    rw [List.flatMap_cons, List.filter_append, ih hitems, List.filter_cons]
    split
    · next hn =>
      have hall : (records item).filter (file · = n) = records item :=
        List.filter_eq_self.2 fun r hr => by simpa [hitem r hr] using hn
      rw [hall, List.flatMap_cons]
    · next hn =>
      have hnone : (records item).filter (file · = n) = [] :=
        List.filter_eq_nil_iff.2 fun r hr => by simpa [hitem r hr] using hn
      rw [hnone, List.nil_append]

/-- The files may come in any order, if each of them has its own name. -/
theorem sortByFile_flatMap_perm (hperm : items.Perm items') (hnodup : (items.map name).Nodup)
    {records : β → List α} (hfile : ∀ item ∈ items, ∀ r ∈ records item, file r = name item) :
    sortByFile file (items.flatMap records) = sortByFile file (items'.flatMap records) := by
  have hfile' : ∀ item ∈ items', ∀ r ∈ records item, file r = name item :=
    fun item hitem => hfile item (hperm.mem_iff.2 hitem)
  refine sortByFile_congr fun n => ?_
  rw [filter_flatMap_eq hfile, filter_flatMap_eq hfile', filter_eq_of_perm hperm hnodup]

end

end TrueCase
