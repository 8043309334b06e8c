import TrueCase.FileSystem.Walk
import TrueCase.Proofs.Path.Segments
import TrueCase.Proofs.Text.Utf8

/-!
# The path of an entry

However the path of a directory is spelled, the path of an entry has one component more, and what
lies below a root is reached from it by the names on the way. The text of these names is a path in
normal form.

## Main definitions

* `RawPath.IsName`: a name that an entry of a directory can have.

## Main statements

* `RawPath.components_pathBelow`: the components of a path below a root.
* `RawPath.relativeTo?_pathBelow`: what is left of such a path.
* `RawPath.child_ofText_ofSegments`, `RawPath.components_child_lossy_iff`: where a text leads that is
  put behind the path of a root.
* `Node.steps_pathBelow`: the names that are followed for it.
-/

namespace TrueCase

namespace RawPath

/-- A name that an entry of a directory can have: not empty, not one of the two dots, and without a
slash. -/
def IsName (name : Bytes) : Prop :=
  name ≠ [] ∧ name ≠ currentDir ∧ name ≠ parentDir ∧ slash ∉ name

instance (name : Bytes) : Decidable (IsName name) :=
  inferInstanceAs (Decidable (name ≠ [] ∧ name ≠ currentDir ∧ name ≠ parentDir ∧ slash ∉ name))

/-- The text of a name is a name. -/
theorem isName_lossy {name : Bytes} (h : IsName name) : Path.IsName (Utf8.lossy name) := by
  obtain ⟨hne, hdot, hdotDot, hslash⟩ := h
  have hinj {bytes : Bytes} (heq : name.map UInt8.toNat = bytes.map UInt8.toNat) : name = bytes :=
    List.map_injective_iff.2 (fun _ _ => UInt8.toNat_inj.1) heq
  refine ⟨fun heq => hne ?_, fun heq => hdot ?_, fun heq => hdotDot ?_, fun hmem => hslash ?_⟩
  · exact hinj (Utf8.eq_of_lossy_eq (by simp) heq)
  · exact hinj (Utf8.eq_of_lossy_eq (by simp) heq)
  · exact hinj (Utf8.eq_of_lossy_eq (by simp) heq)
  · obtain ⟨b, hb, heq⟩ := Utf8.mem_of_mem_lossy (by decide) hmem
    obtain rfl : b = slash := UInt8.toNat_inj.1 heq
    exact hb

theorem isName_of_mem_map_lossy {names : List Bytes} (h : ∀ name ∈ names, IsName name) :
    ∀ n ∈ names.map Utf8.lossy, Path.IsName n := by
  intro n hn
  obtain ⟨name, hname, rfl⟩ := List.mem_map.1 hn
  exact isName_lossy (h name hname)

/-- The bytes of a name are a name. -/
theorem isName_encode {n : Text} (h : Path.IsName n) : IsName (Utf8.encode n) := by
  obtain ⟨hne, hdot, hdotDot, hslash⟩ := h
  refine ⟨fun heq => hne ?_, fun heq => hdot ?_, fun heq => hdotDot ?_, fun hmem => hslash ?_⟩
  · exact Utf8.encode_injective (t := []) heq
  · exact Utf8.encode_injective (t := Path.dot) heq
  · exact Utf8.encode_injective (t := Path.dotDot) heq
  · obtain ⟨c, hc, heq⟩ := Utf8.exists_of_mem_encode (by decide) hmem
    obtain rfl : c = '/' := Char.toNat_inj.1 heq
    exact hc

/-! ## The components of an entry -/

theorem child_ne_nil {p : RawPath} (hp : p ≠ []) (name : Bytes) : child p name ≠ [] := by
  unfold child
  split <;> simp [hp]

theorem getLast?_child (p : RawPath) {name : Bytes} (hne : name ≠ []) (h : slash ∉ name) :
    (child p name).getLast? ≠ some slash := by
  have hlast : name.getLast? ≠ some slash := fun heq => h (List.mem_of_getLast? heq)
  unfold child
  split
  · rwa [List.getLast?_append_of_ne_nil _ hne]
  · rwa [List.getLast?_append_of_ne_nil _ (List.cons_ne_nil slash name),
      List.getLast?_cons_of_ne_nil hne]

/-- The pieces of the path of an entry are those of the directory, but for an empty one at the end,
and those of the name. -/
theorem splitOn_child {p : RawPath} (hp : p ≠ []) (name : Bytes) :
    ∃ pieces, pieces ≠ [] ∧ (child p name).splitOn slash = pieces ++ name.splitOn slash ∧
      (p.splitOn slash = pieces ∨ p.splitOn slash = pieces ++ [[]]) := by
  unfold child
  by_cases hlast : p.getLast? = some slash
  · obtain ⟨q, rfl⟩ := List.getLast?_eq_some_iff.1 hlast
    refine ⟨q.splitOn slash, List.splitOn_ne_nil slash q, ?_, Or.inr ?_⟩
    · rw [if_pos (Or.inr hlast), List.append_assoc, List.singleton_append,
        List.splitOn_append_cons_self]
    · rw [List.splitOn_append_cons_self]
      rfl
  · refine ⟨p.splitOn slash, List.splitOn_ne_nil slash p, ?_, Or.inl rfl⟩
    rw [if_neg (by simp [hp, hlast]), List.splitOn_append_cons_self]

/-- The pieces that count are those of the directory and those of the name. -/
theorem filter_splitOn_child (p : RawPath) (name : Bytes) (counts : Bytes → Bool)
    (hnil : counts [] = false) :
    ((child p name).splitOn slash).filter counts =
      (p.splitOn slash).filter counts ++ (name.splitOn slash).filter counts := by
  by_cases hp : p = []
  · subst hp
    rw [child, if_pos (Or.inl rfl), List.nil_append]
    simp [hnil]
  · obtain ⟨pieces, -, hchild, hpieces⟩ := splitOn_child hp name
    rcases hpieces with hpieces | hpieces <;> rw [hchild, hpieces] <;> simp [hnil]

/-- Of a name that an entry can have all of it counts. -/
theorem filter_splitOn_of_isName {name : Bytes} (h : IsName name) {counts : Bytes → Bool}
    (hcounts : counts name = true) : (name.splitOn slash).filter counts = [name] := by
  rw [List.splitOn_eq_singleton h.2.2.2, List.filter_singleton, hcounts]
  rfl

/-- Whatever the name of an entry is, its path goes on where that of the directory ends. -/
theorem components_child_eq {p : RawPath} (hp : p ≠ []) (name : Bytes) :
    components (child p name) =
      components p ++ (name.splitOn slash).filter fun s => s ≠ [] ∧ s ≠ currentDir := by
  have hhead : (child p name).head? = p.head? := by
    unfold child
    split <;> exact List.head?_append_of_ne_nil _ hp
  have hpiece : ((child p name).splitOn slash).head? = (p.splitOn slash).head? := by
    obtain ⟨pieces, hpieces, hchild, h | h⟩ := splitOn_child hp name <;> rw [hchild, h]
    · exact List.head?_append_of_ne_nil _ hpieces
    · rw [List.head?_append_of_ne_nil _ hpieces, List.head?_append_of_ne_nil _ hpieces]
  have hproper := filter_splitOn_child p name (fun s => s ≠ [] ∧ s ≠ currentDir) (by simp)
  simp only [components, hhead, hpiece, hproper]
  split
  · rfl
  split <;> rfl

theorem components_child {p : RawPath} (hp : p ≠ []) {name : Bytes} (h : IsName name) :
    components (child p name) = components p ++ [name] := by
  rw [components_child_eq hp, filter_splitOn_of_isName h (by simp [h.1, h.2.1])]

theorem pathBelow_cons (root : RawPath) (name : Bytes) (names : Place) :
    Node.pathBelow root (name :: names) = Node.pathBelow (child root name) names := rfl

theorem pathBelow_ne_nil {root : RawPath} (hroot : root ≠ []) (names : Place) :
    Node.pathBelow root names ≠ [] := by
  induction names generalizing root with
  | nil => exact hroot
  | cons name names ih => exact ih (child_ne_nil hroot name)

theorem components_pathBelow {root : RawPath} (hroot : root ≠ []) {names : List Bytes}
    (h : ∀ name ∈ names, IsName name) :
    components (Node.pathBelow root names) = components root ++ names := by
  induction names generalizing root with
  | nil => simp [Node.pathBelow]
  | cons name names ih =>
    have hname := h name List.mem_cons_self
    rw [pathBelow_cons, ih (child_ne_nil hroot name) fun n hn => h n (List.mem_cons_of_mem name hn),
      components_child hroot hname, List.append_assoc, List.singleton_append]

/-- A path below a root starts with the components of the root, whatever the names on the way. -/
theorem prefix_components_pathBelow {root : RawPath} (hroot : root ≠ []) (names : List Bytes) :
    components root <+: components (Node.pathBelow root names) := by
  induction names generalizing root with
  | nil => exact List.prefix_rfl
  | cons name names ih =>
    have hchild : components root <+: components (child root name) := by
      rw [components_child_eq hroot]
      exact List.prefix_append _ _
    exact hchild.trans (ih (child_ne_nil hroot name))

theorem isPrefixOf?_append {α : Type} [BEq α] [LawfulBEq α] (xs ys : List α) :
    xs.isPrefixOf? (xs ++ ys) = some ys := by
  induction xs with
  | nil => cases ys <;> rfl
  | cons x xs ih => simp [List.isPrefixOf?, ih]

/-- What is left of a path below a root are the names on the way to it. -/
theorem relativeTo?_pathBelow {root : RawPath} (hroot : root ≠ []) {names : List Bytes}
    (h : ∀ name ∈ names, IsName name) :
    relativeTo? root (Node.pathBelow root names) =
      some (Path.ofSegments (names.map Utf8.lossy)) := by
  rw [relativeTo?, below?, components_pathBelow hroot h, isPrefixOf?_append, Option.map_some]

/-- There is always something left of a path below a root. -/
theorem exists_relativeTo?_pathBelow {root : RawPath} (hroot : root ≠ []) (names : List Bytes) :
    ∃ name, relativeTo? root (Node.pathBelow root names) = some name := by
  obtain ⟨rest, hrest⟩ := prefix_components_pathBelow hroot names
  rw [relativeTo?, below?, ← hrest, isPrefixOf?_append]
  exact ⟨_, rfl⟩

/-- The path of a file relative to a root above it is in normal form. -/
theorem normal_ofSegments_lossy {names : List Bytes} (h : ∀ name ∈ names, IsName name) :
    Path.Normal (Path.ofSegments (names.map Utf8.lossy)) := by
  exact Path.normal_iff.2 ⟨_, isName_of_mem_map_lossy h, rfl⟩

/-! ## Texts behind a root -/

theorem ofText_ofSegments_cons (n : Text) {ns : List Text} (hne : ns ≠ []) :
    ofText (Path.ofSegments (n :: ns)) = Utf8.encode n ++ slash :: ofText (Path.ofSegments ns) := by
  rw [Path.ofSegments_cons n hne, ofText, Utf8.encode_append]
  rfl

/-- What is put behind a path goes on from the entry that its first name leads to. -/
theorem child_append_slash (root : RawPath) {name : Bytes} (h : IsName name) (rest : Bytes) :
    child root (name ++ slash :: rest) = child (child root name) rest := by
  have hne : child root name ≠ [] := by
    unfold child
    split <;> simp [h.1]
  rw [child.eq_def (child root name), if_neg (not_or.2 ⟨hne, getLast?_child root h.1 h.2.2.2⟩)]
  unfold child
  split <;> simp

/-- The text of some names, put behind the path of a root, is the path that they lead to. -/
theorem child_ofText_ofSegments (root : RawPath) {ns : List Text} (hne : ns ≠ [])
    (h : ∀ n ∈ ns, Path.IsName n) :
    child root (ofText (Path.ofSegments ns)) = Node.pathBelow root (ns.map Utf8.encode) := by
  induction ns generalizing root with
  | nil => exact absurd rfl hne
  | cons n ns ih =>
    obtain ⟨hn, hns⟩ := List.forall_mem_cons.1 h
    -- the entry of the first name is the root for the other ones
    rw [List.map_cons, pathBelow_cons]
    by_cases hnil : ns = []
    · subst hnil
      rw [Path.ofSegments_singleton]
      rfl
    · rw [ofText_ofSegments_cons n hnil, child_append_slash root (isName_encode hn),
        ih _ hnil hns]

/-- The components of such a path. There may be no names, for a root that is a file itself. -/
theorem components_child_ofText {root : RawPath} (hroot : root ≠ []) {ns : List Text}
    (h : ∀ n ∈ ns, Path.IsName n) :
    components (child root (ofText (Path.ofSegments ns))) =
      components root ++ ns.map Utf8.encode := by
  by_cases hne : ns = []
  · subst hne
    exact components_child_eq hroot []
  · rw [child_ofText_ofSegments root hne h, components_pathBelow hroot]
    intro name hname
    obtain ⟨n, hn, rfl⟩ := List.mem_map.1 hname
    exact isName_encode (h n hn)

section

variable {root : RawPath} {names : List Bytes} (h : ∀ name ∈ names, IsName name)

include h

/-- The text that is shown for a path below a root leads back to that path exactly when all names on
the way are UTF-8. -/
theorem components_child_lossy_iff (hroot : root ≠ []) :
    components (child root (ofText (Path.ofSegments (names.map Utf8.lossy)))) =
        components (Node.pathBelow root names) ↔
      ∀ name ∈ names, ∃ t, Utf8.decode? name = some t := by
  rw [components_child_ofText hroot (isName_of_mem_map_lossy h), components_pathBelow hroot h,
    List.append_cancel_left_eq, Utf8.map_encode_lossy_eq_iff]

theorem child_ofText_lossy (hne : names ≠ [])
    (hutf8 : ∀ name ∈ names, ∃ t, Utf8.decode? name = some t) :
    child root (ofText (Path.ofSegments (names.map Utf8.lossy))) = Node.pathBelow root names := by
  rw [child_ofText_ofSegments root (by simpa using hne) (isName_of_mem_map_lossy h),
    Utf8.map_encode_lossy_eq_iff.2 hutf8]

end

end RawPath

namespace Node

open RawPath

theorem steps_child (p : RawPath) {name : Bytes} (h : IsName name) :
    steps (child p name) = (p.splitOn slash).filter (· ≠ noName) ++ [name] := by
  rw [steps, if_neg (getLast?_child p h.1 h.2.2.2), List.append_nil,
    filter_splitOn_child p name (· ≠ noName) (by simp),
    filter_splitOn_of_isName h (by simpa using h.1)]

/-- The names that are followed for a path below a root are those for the root, but for the one that
asks for a directory, and those on the way. -/
theorem steps_pathBelow (root : RawPath) {names : List Bytes} (hne : names ≠ [])
    (h : ∀ name ∈ names, IsName name) : steps (pathBelow root names) =
      (root.splitOn slash).filter (· ≠ noName) ++ names := by
  induction names generalizing root with
  | nil => exact absurd rfl hne
  | cons name names ih =>
    have hname := h name List.mem_cons_self
    rw [pathBelow_cons]
    by_cases hnil : names = []
    · subst hnil
      exact steps_child root hname
    · rw [ih (child root name) hnil fun n hn => h n (List.mem_cons_of_mem name hn),
        filter_splitOn_child root name (· ≠ noName) (by simp),
        filter_splitOn_of_isName hname (by simpa using hname.1),
        List.append_assoc, List.singleton_append]

end Node

end TrueCase
