import TrueCase.Proofs.Report.Grammar
import TrueCase.Report.Basic

/-!
# The saved report

The text of a saved report is a JSON document, and what it says holds the whole report: each field
is found under its name, texts are as they were before they were escaped, numbers are as they were
before they were written in decimal, and the lists are complete and in order.

## Main definitions

* `Json.tree`: what the document of a value says.
* `Report.ofTree?`: the report that a document holds, by the names of its members.
* `Report.StandsIn`: a text is a document that holds a report.

## Main statements

* `Json.isDocument_pretty_iff`: what is written for a value is a document that says that value, and
  nothing else.
* `Report.standsIn_document_iff`: the text of a saved report holds that report and no other.
-/

namespace TrueCase

namespace Json

/-! ## Texts and numbers -/

theorem codeUnit?_hexDigit {n : Nat} (h : n < 32) :
    codeUnit? '0' '0' (hexDigit (n / 16)) (hexDigit (n % 16)) = some n := by
  have hall : ∀ n < 32, codeUnit? '0' '0' (hexDigit (n / 16)) (hexDigit (n % 16)) = some n := by
    decide
  exact hall n h

theorem readsChar_escapeChar (c : Char) (r : Text) : ReadsChar (escapeChar c ++ r) c r := by
  unfold escapeChar
  split
  · exact .short rfl
  · exact .short rfl
  · exact .short rfl
  · exact .short rfl
  · exact .short rfl
  · exact .short rfl
  · exact .short rfl
  · next hquote hslash _ _ _ _ _ =>
    split
    · next hlow =>
      have hunit := ReadsChar.unit (r := r) (codeUnit?_hexDigit hlow)
        (by unfold IsHigh; omega) (by unfold IsLow; omega)
      rwa [Char.ofNat_toNat] at hunit
    · next hlow => exact .plain (by omega) hquote hslash

theorem readsString_escape (t r : Text) : ReadsString (escape t ++ '"' :: r) t r := by
  induction t with
  | nil => exact .close
  | cons c t ih =>
    rw [escape, List.flatMap_cons, List.append_assoc]
    exact .char (readsChar_escapeChar c _) ih

/-- Only zero is written with a zero in front. -/
theorem ofNat_of_head?_eq_zero {n : Nat} (h : (Text.ofNat n).head? = some '0') :
    Text.ofNat n = ['0'] := by
  induction n using Nat.strongRecOn with
  | ind n ih =>
    rw [Text.ofNat, Nat.toDigits_eq_if (by decide)] at h ⊢
    split at h
    · next hn =>
      rw [if_pos hn]
      exact List.singleton_inj.2 (Option.some.inj h)
    · next hn =>
      rw [List.head?_append_of_ne_nil _ Nat.toDigits_ne_nil] at h
      have hzero : Nat.toDigits 10 (n / 10) = ['0'] := ih (n / 10) (by omega) h
      -- the digits in front would be those of zero
      have hvalue := Nat.ofDigitChars_ten_toDigits (n := n / 10)
      rw [hzero, Nat.ofDigitChars_cons, Nat.ofDigitChars_nil] at hvalue
      have hnonzero : n / 10 ≠ 0 := by omega
      exact absurd hvalue.symm hnonzero

theorem isNumeral_ofNat (n : Nat) : IsNumeral (Text.ofNat n) := by
  have hdigits : IsDigits (Text.ofNat n) :=
    ⟨Nat.toDigits_ne_nil, fun _ hc => Text.isDigit_of_mem_ofNat hc⟩
  exact ⟨[], Text.ofNat n, [], [], by simp, .inl rfl, ⟨hdigits, ofNat_of_head?_eq_zero⟩, .inl rfl,
    .inl rfl⟩

/-! ## Values -/

mutual

/-- What the document of a value says. -/
def tree : Json → Tree
  | boolean b => .boolean b
  | number n => .number (Text.ofNat n)
  | string t => .string t
  | array items => .array (trees items)
  | object members => .object (memberTrees members)

/-- What the documents of the items of an array say. -/
def trees : List Json → List Tree
  | [] => []
  | item :: items => tree item :: trees items

/-- The members of an object, with what the documents of their values say. -/
def memberTrees : List (Text × Json) → List (Text × Tree)
  | [] => []
  | (name, value) :: members => (name, tree value) :: memberTrees members

end

theorem trees_eq_map (items : List Json) : trees items = items.map tree := by
  induction items with
  | nil => rfl
  | cons item items ih => rw [trees, ih, List.map_cons]

theorem blanks_newline (depth : Nat) (r : Text) : Blanks (newline depth ++ r) r := by
  refine ⟨newline depth, ?_, rfl⟩
  intro c hc
  rcases List.mem_cons.1 hc with rfl | hc
  · decide
  · rw [List.eq_of_mem_replicate hc]
    decide

/-- A value on a line of its own is an element. -/
theorem Reads.onLine {v : Tree} {s : Text} (hs : ∀ r, Reads .value v (s ++ r) r) (depth : Nat)
    {u r : Text} (hu : Blanks u r) : Reads .element v (newline depth ++ (s ++ u)) r :=
  .element (blanks_newline depth _) (hs u) hu

/-- So is a member that does not start with white space. -/
theorem Reads.memberOnLine {v : Tree} {s : Text} (hs : ∀ r, Reads .value v (s ++ r) r)
    (name : Text) (depth : Nat) {u r : Text} (hu : Blanks u r) :
    Reads .member (name, v) (newline depth ++ (quote name ++ (':' :: ' ' :: (s ++ u)))) r := by
  have hspace : Blanks (' ' :: (s ++ u)) (s ++ u) :=
    ⟨[' '], List.forall_mem_singleton.2 (by decide), rfl⟩
  have hquote : quote name ++ (':' :: ' ' :: (s ++ u)) =
      '"' :: (escape name ++ '"' :: ':' :: ' ' :: (s ++ u)) := by
    simp [quote]
  rw [hquote]
  exact .member (blanks_newline depth _) (readsString_escape name _) (.refl _)
    (.element hspace (hs u) hu)

mutual

/-- The layout of a value is read as what it says. -/
theorem reads_prettyAt (depth : Nat) :
    ∀ (json : Json) (r : Text), Reads .value json.tree (prettyAt depth json ++ r) r
  | boolean true, r => .yes
  | boolean false, r => .no
  | number n, r => .number (isNumeral_ofNat n) rfl
  | string t, r => by
    simpa [prettyAt, tree, quote] using Reads.string (readsString_escape t r)
  | array [], r => .emptyArray (.refl _)
  | array (item :: items), r => by
    have helements := reads_prettyItems (depth + 1) items (reads_prettyAt (depth + 1) item)
      (blanks_newline depth (']' :: r))
    simpa [prettyAt, tree, trees] using Reads.array helements
  | object [], r => .emptyObject (.refl _)
  | object ((name, value) :: members), r => by
    have hmembers := reads_prettyMembers (depth + 1) members name
      (reads_prettyAt (depth + 1) value) (blanks_newline depth ('\x7d' :: r))
    simpa [prettyAt, tree, memberTrees] using Reads.object hmembers

/-- An item, each line by itself, and those behind it are read as the elements of an array. -/
theorem reads_prettyItems (depth : Nat) : ∀ (items : List Json) {v : Tree} {s u r : Text},
    (∀ r, Reads .value v (s ++ r) r) → Blanks u r →
      Reads .elements (v :: trees items) (newline depth ++ (s ++ (prettyItems depth items ++ u))) r
  | [], v, s, u, r, hs, hu => .lastElement (.onLine hs depth hu)
  | item :: items, v, s, u, r, hs, hu => by
    have helements := reads_prettyItems depth items (reads_prettyAt depth item) hu
    have hitem := Reads.onLine hs depth (.refl (',' :: (newline depth ++
      (prettyAt depth item ++ (prettyItems depth items ++ u)))))
    simpa [prettyItems, trees] using Reads.elements hitem helements

/-- A member and those behind it are read as the members of an object. -/
theorem reads_prettyMembers (depth : Nat) : ∀ (members : List (Text × Json)) (name : Text)
    {v : Tree} {s u r : Text}, (∀ r, Reads .value v (s ++ r) r) → Blanks u r →
      Reads .members ((name, v) :: memberTrees members) (newline depth ++ (quote name ++
        (':' :: ' ' :: (s ++ (prettyMembers depth members ++ u))))) r
  | [], name, v, s, u, r, hs, hu => .lastMember (.memberOnLine hs name depth hu)
  | (next, value) :: members, name, v, s, u, r, hs, hu => by
    have hmembers := reads_prettyMembers depth members next (reads_prettyAt depth value) hu
    have hmember := Reads.memberOnLine hs name depth (.refl (',' :: (newline depth ++
      (quote next ++ (':' :: ' ' :: (prettyAt depth value ++
        (prettyMembers depth members ++ u)))))))
    simpa [prettyMembers, memberTrees] using Reads.members hmember hmembers

end

/-- The document of a value says that value, and nothing else. -/
theorem isDocument_pretty_iff {json : Json} {t : Tree} :
    IsDocument json.pretty t ↔ t = json.tree := by
  have h : IsDocument json.pretty json.tree := by
    have hvalue := reads_prettyAt 0 json []
    rw [List.append_nil] at hvalue
    exact .element (.refl _) hvalue (.refl _)
  exact ⟨fun ht => ht.unique h, fun ht => ht ▸ h⟩

/-! ## Members -/

namespace Tree

/-- The value of the member of an object that has the given name. -/
def member? (name : Text) : Tree → Option Tree
  | object members => members.lookup name
  | _ => none

/-- A text. -/
def text? : Tree → Option Text
  | string t => some t
  | _ => none

/-- A truth value. -/
def flag? : Tree → Option Bool
  | boolean b => some b
  | _ => none

/-- A natural number, which is written with digits alone. -/
def count? : Tree → Option Nat
  | number numeral =>
    if numeral.all Char.isDigit then some (Nat.ofDigitChars 10 numeral 0) else none
  | _ => none

/-- The items of an array, each as the given reader takes it. -/
def list? {α : Type} (read : Tree → Option α) : Tree → Option (List α)
  | array items => items.mapM read
  | _ => none

end Tree

theorem count?_tree_number (n : Nat) : (number n).tree.count? = some n := by
  have hdigits : (Text.ofNat n).all Char.isDigit = true :=
    List.all_eq_true.2 fun _ hc => Text.isDigit_of_mem_ofNat hc
  rw [tree, Tree.count?, if_pos hdigits, Text.ofNat, Nat.ofDigitChars_ten_toDigits]

/-- A list is read back if each of its items is. -/
theorem list?_tree_array {α : Type} {read : Tree → Option α} {write : α → Json}
    (h : ∀ x, read (write x).tree = some x) (xs : List α) :
    (array (xs.map write)).tree.list? read = some xs := by
  rw [tree, Tree.list?, trees_eq_map]
  induction xs with
  | nil => rfl
  | cons x xs ih =>
    rw [List.map_cons, List.map_cons, List.mapM_cons, h, ih]
    rfl

end Json

/-! ## Reports -/

open Json

/-- The fix record that a value holds. -/
def FixRecord.ofTree? (tree : Tree) : Option FixRecord := do
  return {
    file := ← (← tree.member? "file".toList).text?
    old := ← (← tree.member? "old".toList).text?
    new := ← (← tree.member? "new".toList).text?
    target := ← (← tree.member? "target".toList).text? }

/-- The issue record that a value holds. -/
def IssueRecord.ofTree? (tree : Tree) : Option IssueRecord := do
  return {
    file := ← (← tree.member? "file".toList).text?
    specifier := ← (← tree.member? "import".toList).text?
    line := ← (← tree.member? "line".toList).count?
    reason := ← (← tree.member? "reason".toList).text? }

/-- The counts that a value holds. -/
def Counts.ofTree? (tree : Tree) : Option Counts := do
  return {
    totalFixes := ← (← tree.member? "totalFixes".toList).count?
    totalIssues := ← (← tree.member? "totalIssues".toList).count?
    filesIndexed := ← (← tree.member? "filesIndexed".toList).count?
    filesScanned := ← (← tree.member? "filesScanned".toList).count?
    filesChanged := ← (← tree.member? "filesChanged".toList).count? }

theorem FixRecord.ofTree?_tree (fix : FixRecord) : ofTree? fix.toJson.tree = some fix := rfl

theorem IssueRecord.ofTree?_tree (issue : IssueRecord) :
    ofTree? issue.toJson.tree = some issue := by
  have hmembers : ofTree? issue.toJson.tree = (do
      return {
        file := issue.file
        specifier := issue.specifier
        line := ← (number issue.line).tree.count?
        reason := issue.reason }) := rfl
  simp only [hmembers, count?_tree_number, Option.pure_def, Option.bind_eq_bind, Option.bind_some]

theorem Counts.ofTree?_tree (counts : Counts) : ofTree? counts.toJson.tree = some counts := by
  have hmembers : ofTree? counts.toJson.tree = (do
      return {
        totalFixes := ← (number counts.totalFixes).tree.count?
        totalIssues := ← (number counts.totalIssues).tree.count?
        filesIndexed := ← (number counts.filesIndexed).tree.count?
        filesScanned := ← (number counts.filesScanned).tree.count?
        filesChanged := ← (number counts.filesChanged).tree.count? }) := rfl
  simp only [hmembers, count?_tree_number, Option.pure_def, Option.bind_eq_bind, Option.bind_some]

namespace Report

/-- The report that a document holds, by the names of its members. -/
def ofTree? (tree : Tree) : Option Report := do
  return {
    timestamp := ← (← tree.member? "timestamp".toList).text?
    dryRun := ← (← tree.member? "dryRun".toList).flag?
    fixes := ← (← tree.member? "fixes".toList).list? FixRecord.ofTree?
    issues := ← (← tree.member? "issues".toList).list? IssueRecord.ofTree?
    counts := ← Counts.ofTree? (← tree.member? "summary".toList) }

theorem ofTree?_tree (report : Report) : ofTree? report.toJson.tree = some report := by
  have hmembers : ofTree? report.toJson.tree = (do
      return {
        timestamp := report.timestamp
        dryRun := report.dryRun
        fixes := ← (array (report.fixes.map FixRecord.toJson)).tree.list? FixRecord.ofTree?
        issues := ← (array (report.issues.map IssueRecord.toJson)).tree.list? IssueRecord.ofTree?
        counts := ← Counts.ofTree? report.counts.toJson.tree }) := rfl
  simp only [hmembers, list?_tree_array FixRecord.ofTree?_tree,
    list?_tree_array IssueRecord.ofTree?_tree, Counts.ofTree?_tree, Option.pure_def,
    Option.bind_eq_bind, Option.bind_some]

/-- A text is a document that holds a report. -/
def StandsIn (report : Report) (t : Text) : Prop :=
  ∃ tree, IsDocument t tree ∧ ofTree? tree = some report

theorem standsIn_document (report : Report) : report.StandsIn report.document :=
  ⟨_, isDocument_pretty_iff.2 rfl, report.ofTree?_tree⟩

theorem StandsIn.unique {report report' : Report} {t : Text} (h : report.StandsIn t)
    (h' : report'.StandsIn t) : report = report' := by
  obtain ⟨tree, htree, hreport⟩ := h
  obtain ⟨tree', htree', hreport'⟩ := h'
  obtain rfl := htree.unique htree'
  exact Option.some.inj (hreport.symm.trans hreport')

/-- The text of a saved report is a JSON document that says one thing, and the report that it holds
is the one that was saved, with all its fields, all its fixes and all its issues in order. No other
report is saved as the same text. -/
theorem standsIn_document_iff (report : Report) :
    (∃! tree, IsDocument report.document tree) ∧
      (∀ other : Report, other.StandsIn report.document ↔ other = report) ∧
      ∀ other : Report, other.document = report.document ↔ other = report := by
  have hstands := report.standsIn_document
  refine ⟨?_, fun other => ⟨fun h => h.unique hstands, ?_⟩, fun other => ⟨fun h => ?_, ?_⟩⟩
  · exact ⟨_, isDocument_pretty_iff.2 rfl, fun _ htree => isDocument_pretty_iff.1 htree⟩
  · rintro rfl
    exact hstands
  · have hother := other.standsIn_document
    rw [h] at hother
    exact hother.unique hstands
  · rintro rfl
    rfl

end Report

end TrueCase
