import TrueCase.Proofs.FileSystem.RawPath

/-!
# Rewriting a file

Where a path leads depends on the shape of a tree only, that is on its names and links. Rewriting a
file keeps the shape and every other file, so the paths lead where they did before, and what is read
has changed at the paths of that file and nowhere else.

## Main definitions

* `Node.shape`: the tree without the contents of its files.
* `Node.Usable`: the paths that the system takes.

## Main statements

* `Node.locate_congr`: a path leads to the same place in every tree of the same shape.
* `Node.shape_set`: rewriting a file keeps the shape.
* `Node.set_comm`: two files can be rewritten in either order.
* `Node.follow_append`: names are followed from where the names before them lead.
* `Node.follow_eq_append`: the names on the way to a file lead straight there.
* `Node.write_eq`: a file that can be read can be written.
* `Node.read_set_self`, `Node.read_set_of_ne`: what is read after a file has been rewritten.
-/

namespace TrueCase

namespace Node

/-! ## Entries -/

@[simp] theorem child?_putEntry_self (name : Bytes) (node : Node) (entries : List (Bytes × Node)) :
    (directory (putEntry name node entries)).child? name = some node := by
  induction entries with
  | nil => simp [child?, Node.entries, putEntry]
  | cons entry entries ih =>
    rw [putEntry]
    split
    · simp [child?, Node.entries]
    · next hne => simpa [child?, Node.entries, hne] using ih

theorem child?_putEntry_of_ne {name other : Bytes} (h : other ≠ name) (node : Node)
    (entries : List (Bytes × Node)) :
    (directory (putEntry name node entries)).child? other = (directory entries).child? other := by
  induction entries with
  | nil => simp [child?, Node.entries, putEntry, Ne.symm h]
  | cons entry entries ih =>
    rw [putEntry]
    split
    · next heq => simp [child?, Node.entries, Ne.symm h, heq]
    · by_cases ho : entry.1 = other
      · simp [child?, Node.entries, ho]
      · simpa [child?, Node.entries, ho] using ih

theorem at?_append (top : Node) (place more : Place) :
    top.at? (place ++ more) = (top.at? place).bind (·.at? more) := by
  induction place generalizing top with
  | nil => rfl
  | cons name names ih =>
    rw [List.cons_append, at?, at?]
    cases top.child? name with
    | none => rfl
    | some node => exact ih node

theorem at?_concat (top : Node) (place : Place) (name : Bytes) :
    top.at? (place ++ [name]) = (top.at? place).bind (·.child? name) := by
  rw [at?_append]
  congr 1
  funext node
  rw [at?]
  cases node.child? name <;> rfl

/-! ## The shape of a tree -/

mutual

/-- The tree without the contents of its files. -/
def shape : Node → Node
  | file _ => file []
  | link target => link target
  | directory entries => directory (shapeEntries entries)

/-- The entries without the contents of files. -/
def shapeEntries : List (Bytes × Node) → List (Bytes × Node)
  | [] => []
  | (name, node) :: entries => (name, node.shape) :: shapeEntries entries

end

theorem shapeEntries_eq_map (entries : List (Bytes × Node)) :
    shapeEntries entries = entries.map fun entry => (entry.1, entry.2.shape) := by
  induction entries with
  | nil => rfl
  | cons entry entries ih => rw [shapeEntries, ih, List.map_cons]

theorem child?_shape (node : Node) (name : Bytes) :
    node.shape.child? name = (node.child? name).map shape := by
  cases node with
  | file content => rfl
  | link target => rfl
  | directory entries =>
    simp only [shape, shapeEntries_eq_map, child?, Node.entries, List.find?_map, Option.map_map]
    rfl

theorem at?_shape (top : Node) (place : Place) :
    top.shape.at? place = (top.at? place).map shape := by
  induction place generalizing top with
  | nil => rfl
  | cons name names ih =>
    rw [at?, at?, child?_shape]
    cases top.child? name with
    | none => rfl
    | some node => exact ih node

theorem followNames_shape (top : Node) (purpose : Purpose)
    (jump : Place → List Bytes → Except FileError Place) (here : Place) (names : List Bytes) :
    top.shape.followNames purpose jump here names = top.followNames purpose jump here names := by
  have hchild (entries : List (Bytes × Node)) (name : Bytes) :
      (directory (shapeEntries entries)).child? name =
        ((directory entries).child? name).map shape :=
    child?_shape (directory entries) name
  fun_induction followNames top purpose jump here names <;> rw [followNames]
  case case10 here name names entries hat hstay hup hslash node hlink hnode ih =>
    cases node with
    | link target => exact absurd rfl (hlink target)
    | file content => simp [at?_shape, shape, *]
    | directory inner => simp [at?_shape, shape, *]
  case case11 here name names hat =>
    cases hnode : top.at? here with
    | none => simp [at?_shape, hnode]
    | some node =>
      cases node with
      | directory entries => exact absurd hnode (hat entries)
      | file content => simp [at?_shape, shape, hnode]
      | link target => simp [at?_shape, shape, hnode]
  all_goals simp [at?_shape, shape, *]

theorem follow_shape (top : Node) (purpose : Purpose) (rounds : Nat) :
    top.shape.follow purpose rounds = top.follow purpose rounds := by
  induction rounds with
  | zero => rfl
  | succ rounds ih =>
    funext here names
    rw [follow, follow, ih, followNames_shape]

theorem locate_shape (top : Node) (purpose : Purpose) (path : RawPath) :
    top.shape.locate purpose path = top.locate purpose path := by
  simp only [locate, follow_shape]

/-- A path leads to the same place in every tree of the same shape. -/
theorem locate_congr {top top' : Node} (h : top.shape = top'.shape) (purpose : Purpose)
    (path : RawPath) : top.locate purpose path = top'.locate purpose path := by
  rw [← locate_shape, h, locate_shape]

/-! ## Rewriting a file -/

theorem shapeEntries_putEntry {name : Bytes} {node new : Node} {entries : List (Bytes × Node)}
    (hchild : (directory entries).child? name = some node) (h : new.shape = node.shape) :
    shapeEntries (putEntry name new entries) = shapeEntries entries := by
  induction entries with
  | nil => cases hchild
  | cons entry entries ih =>
    obtain ⟨other, inner⟩ := entry
    rw [putEntry]
    by_cases ho : other = name
    · subst ho
      have hinner : inner = node := by simpa [child?, Node.entries] using hchild
      rw [if_pos rfl, shapeEntries, shapeEntries, h, hinner]
    · have hrest : (directory entries).child? name = some node := by
        simpa [child?, Node.entries, ho] using hchild
      rw [if_neg ho, shapeEntries, shapeEntries, ih hrest]

theorem exists_entries_of_child? {node inner : Node} {name : Bytes}
    (h : node.child? name = some inner) : ∃ entries, node = directory entries := by
  cases node with
  | file content => cases h
  | link target => cases h
  | directory entries => exact ⟨entries, rfl⟩

theorem at?_set_self (new : Node) (top : Node) (place : Place) :
    (set new place top).at? place = some new := by
  induction place generalizing top with
  | nil => rfl
  | cons name names ih => rw [set, at?, child?_putEntry_self, Option.bind_some, ih]

section

variable {top : Node} {place : Place} {old : Bytes} (h : top.at? place = some (file old))
  (content : Bytes)

include h

/-- Rewriting a file keeps the shape of the tree. -/
theorem shape_set : (set (file content) place top).shape = top.shape := by
  induction place generalizing top with
  | nil =>
    cases h
    rfl
  | cons name names ih =>
    obtain ⟨inner, hchild, hinner⟩ := Option.bind_eq_some_iff.1 h
    obtain ⟨entries, rfl⟩ := exists_entries_of_child? hchild
    rw [set, hchild, Option.getD_some, shape, shape, Node.entries,
      shapeEntries_putEntry hchild (ih hinner)]

/-- The other files are what they were. -/
theorem at?_set_of_ne {other : Place} (hne : other ≠ place) (kept : Bytes) :
    (set (file content) place top).at? other = some (file kept) ↔
      top.at? other = some (file kept) := by
  induction place generalizing top other with
  | nil =>
    cases h
    cases other with
    | nil => exact absurd rfl hne
    | cons name names => exact Iff.rfl
  | cons name names ih =>
    obtain ⟨inner, hchild, hinner⟩ := Option.bind_eq_some_iff.1 h
    obtain ⟨entries, rfl⟩ := exists_entries_of_child? hchild
    rw [set, hchild, Option.getD_some]
    cases other with
    | nil => simp [at?]
    | cons name' names' =>
      rw [at?, at?]
      by_cases hname : name' = name
      · subst hname
        rw [child?_putEntry_self, hchild, Option.bind_some, Option.bind_some]
        exact ih hinner fun heq => hne (by rw [heq])
      · rw [child?_putEntry_of_ne hname]
        rfl

end

/-! ## Rewriting two files -/

theorem putEntry_putEntry_self (name : Bytes) (node node' : Node)
    (entries : List (Bytes × Node)) :
    putEntry name node (putEntry name node' entries) = putEntry name node entries := by
  induction entries with
  | nil => simp [putEntry]
  | cons entry entries ih =>
    rw [putEntry, putEntry]
    split
    · rw [putEntry, if_pos rfl]
    · next hne => rw [putEntry, if_neg hne, ih]

/-- One of the names has to be there, as otherwise they would be added in another order. -/
theorem putEntry_comm {name name' : Bytes} (hne : name ≠ name') (node node' : Node)
    {entries : List (Bytes × Node)} {inner : Node}
    (h : (directory entries).child? name = some inner) :
    putEntry name' node' (putEntry name node entries) =
      putEntry name node (putEntry name' node' entries) := by
  induction entries with
  | nil => cases h
  | cons entry entries ih =>
    obtain ⟨other, held⟩ := entry
    by_cases ho : other = name
    · subst ho
      simp [putEntry, hne]
    · have hrest : (directory entries).child? name = some inner := by
        simpa [child?, Node.entries, ho] using h
      by_cases ho' : other = name'
      · subst ho'
        simp [putEntry, ho]
      · simp [putEntry, ho, ho', ih hrest]

/-- Two files can be rewritten in either order. -/
theorem set_comm {top : Node} {place place' : Place} {old old' : Bytes}
    (h : top.at? place = some (file old)) (h' : top.at? place' = some (file old'))
    (hne : place ≠ place') (new new' : Node) :
    set new' place' (set new place top) = set new place (set new' place' top) := by
  induction place generalizing top place' with
  | nil =>
    cases h
    cases place' with
    | nil => exact absurd rfl hne
    | cons name names => cases h'
  | cons name names ih =>
    obtain ⟨inner, hchild, hinner⟩ := Option.bind_eq_some_iff.1 h
    obtain ⟨entries, rfl⟩ := exists_entries_of_child? hchild
    cases place' with
    | nil => cases h'
    | cons name' names' =>
      obtain ⟨inner', hchild', hinner'⟩ := Option.bind_eq_some_iff.1 h'
      simp only [set, hchild, hchild', Option.getD_some, Node.entries]
      by_cases hname : name = name'
      · -- both files stand below the same entry
        subst hname
        obtain rfl : inner = inner' := Option.some.inj (hchild.symm.trans hchild')
        rw [child?_putEntry_self, child?_putEntry_self, Option.getD_some, Option.getD_some,
          putEntry_putEntry_self, putEntry_putEntry_self,
          ih hinner hinner' fun heq => hne (by rw [heq])]
      · rw [child?_putEntry_of_ne (Ne.symm hname), child?_putEntry_of_ne hname, hchild, hchild',
          Option.getD_some, Option.getD_some, putEntry_comm hname _ _ hchild]

/-! ## Following names -/

section

variable {top : Node} {purpose : Purpose} {rounds : Nat} {here there : Place} {name : Bytes}
  {names : List Bytes} {entries : List (Bytes × Node)}

theorem follow_nil : top.follow purpose (rounds + 1) here [] = .ok here := rfl

section

variable (hdir : top.at? here = some (directory entries))

include hdir

theorem follow_stay (hname : name = noName ∨ name = RawPath.currentDir) :
    top.follow purpose (rounds + 1) here (name :: names) =
      top.follow purpose (rounds + 1) here names := by
  simp only [follow, followNames, hdir, if_pos hname]

theorem follow_up : top.follow purpose (rounds + 1) here (RawPath.parentDir :: names) =
    top.follow purpose (rounds + 1) here.dropLast names := by
  have hstay : ¬(RawPath.parentDir = noName ∨ RawPath.parentDir = RawPath.currentDir) := by decide
  simp only [follow, followNames, hdir, if_neg hstay, if_true]

variable (hstay : ¬(name = noName ∨ name = RawPath.currentDir)) (hup : name ≠ RawPath.parentDir)
  (hslash : ¬(purpose = .creation ∧ names = [noName]))

include hstay hup hslash

theorem follow_jump {target : RawPath}
    (hchild : (directory entries).child? name = some (link target))
    (hitself : ¬(purpose = .itself ∧ names = [])) :
    top.follow purpose (rounds + 1) here (name :: names) =
      top.follow purpose rounds (origin here target) (steps target ++ names) := by
  simp only [follow, followNames, hdir, if_neg hstay, if_neg hup, if_neg hslash, hchild,
    if_neg hitself]

theorem follow_down {node : Node} (hchild : (directory entries).child? name = some node)
    (hnode : ∀ target, node ≠ link target) :
    top.follow purpose (rounds + 1) here (name :: names) =
      top.follow purpose (rounds + 1) (here ++ [name]) names := by
  simp only [follow, followNames, hdir, if_neg hstay, if_neg hup, if_neg hslash, hchild]

end

/-- Names are followed from where the names before them lead, in the rounds that remain; unless
those lead nowhere. -/
theorem follow_append (top : Node) (rounds : Nat) (here : Place) (names : List Bytes) :
    (∃ e, ∀ more, top.follow .target rounds here (names ++ more) = .error e) ∨
      ∃ left there, ∀ more, top.follow .target rounds here (names ++ more) =
        top.follow .target (left + 1) there more := by
  induction rounds generalizing here names with
  | zero => exact .inl ⟨.tooManyLinks, fun _ => rfl⟩
  | succ rounds ihJump =>
    fun_induction followNames top Purpose.target (top.follow .target rounds) here names with
    | case1 here => exact .inr ⟨rounds, here, fun _ => rfl⟩
    | case2 here name names entries hdir hname ih =>
      simpa only [List.cons_append, follow_stay hdir hname] using ih
    | case3 here names entries hdir hstay ih =>
      simpa only [List.cons_append, follow_up hdir] using ih
    | case4 here name names entries hdir hstay hup hcreation => cases hcreation.1
    | case5 here name names entries hdir hstay hup hslash hchild hlong =>
      refine .inl ⟨.nameTooLong, fun more => ?_⟩
      simp [follow, followNames, hdir, hstay, hup, hchild, hlong]
    | case6 here name names entries hdir hstay hup hslash hchild hlong hcreation =>
      cases hcreation.1
    | case7 here name names entries hdir hstay hup hslash hchild hlong hcreation =>
      refine .inl ⟨.notFound, fun more => ?_⟩
      simp [follow, followNames, hdir, hstay, hup, hchild, hlong]
    | case8 here name names entries hdir hstay hup hslash target hchild hitself => cases hitself.1
    | case9 here name names entries hdir hstay hup hslash target hchild hitself =>
      have hjump (more : List Bytes) :
          top.follow .target (rounds + 1) here (name :: (names ++ more)) =
            top.follow .target rounds (origin here target) (steps target ++ (names ++ more)) :=
        follow_jump hdir hstay hup (by simp) hchild (by simp)
      simpa only [List.cons_append, hjump, List.append_assoc] using
        ihJump (origin here target) (steps target ++ names)
    | case10 here name names entries hdir hstay hup hslash node hnode hchild ih =>
      have hdown (more : List Bytes) :
          top.follow .target (rounds + 1) here (name :: (names ++ more)) =
            top.follow .target (rounds + 1) (here ++ [name]) (names ++ more) :=
        follow_down hdir hstay hup (by simp) hchild hnode
      simpa only [List.cons_append, hdown] using ih
    | case11 here name names hnot =>
      refine .inl ⟨.notDirectory, fun more => ?_⟩
      rw [List.cons_append, follow, followNames]
      split
      · next entries hdir => exact (hnot entries hdir).elim
      · rfl

/-- A slash behind names changes nothing, but it asks for a directory. -/
theorem follow_noName (h : top.follow .target (rounds + 1) here [noName] = .ok there) :
    there = here ∧ ∃ entries, top.at? here = some (directory entries) := by
  rw [follow, followNames] at h
  split at h
  · next entries hdir =>
    rw [if_pos (Or.inl rfl), followNames, Except.ok.injEq] at h
    exact ⟨h.symm, entries, hdir⟩
  · cases h

/-- What is followed to the end, and is no link, is where names lead if links are followed. -/
theorem follow_target (h : top.follow purpose rounds here names = .ok there) {node : Node}
    (hat : top.at? there = some node) (hlink : ∀ target, node ≠ link target) :
    top.follow .target rounds here names = .ok there := by
  induction rounds generalizing here names with
  | zero => cases h
  | succ rounds ihJump =>
    rw [follow] at h
    fun_induction followNames top purpose (top.follow purpose rounds) here names with
    | case1 => exact h
    | case2 here name names entries hdir hname ih => exact (follow_stay hdir hname).trans (ih h)
    | case3 here names entries hdir hstay ih => exact (follow_up hdir).trans (ih h)
    | case4 => cases h
    | case5 => cases h
    | case6 here name names entries hdir hstay hup hslash hchild hlong hcreation =>
      cases h
      rw [at?_concat, hdir, Option.bind_some, hchild] at hat
      cases hat
    | case7 => cases h
    | case8 here name names entries hdir hstay hup hslash target hchild hitself =>
      cases h
      rw [at?_concat, hdir, Option.bind_some, hchild] at hat
      exact absurd (Option.some.inj hat).symm (hlink target)
    | case9 here name names entries hdir hstay hup hslash target hchild hitself =>
      exact (follow_jump hdir hstay hup (by simp) hchild (by simp)).trans (ihJump h)
    | case10 here name names entries hdir hstay hup hslash node hnode hchild ih =>
      exact (follow_down hdir hstay hup (by simp) hchild hnode).trans (ih h)
    | case11 => cases h

/-- Where names lead if links are followed, they lead whatever they are followed for: a file can be
made where one stands; and only what stands at their end itself may be a link. -/
theorem follow_of_target (purpose : Purpose)
    (h : top.follow .target rounds here names = .ok there)
    (hfile : purpose = .creation → ∃ content, top.at? there = some (file content)) :
    top.follow purpose rounds here names = .ok there ∨
      purpose = .itself ∧ ∃ place target, top.follow purpose rounds here names = .ok place ∧
        top.at? place = some (link target) := by
  -- a slash behind the names leads to a directory
  have hslash {rounds : Nat} {here : Place} {front : List Bytes}
      (h : top.follow .target rounds here (front ++ [noName]) = .ok there) : purpose ≠ .creation := by
    intro hcreation
    obtain ⟨content, hat⟩ := hfile hcreation
    obtain ⟨e, herror⟩ | ⟨left, between, hmore⟩ := follow_append top rounds here front
    · cases (herror [noName]).symm.trans h
    · obtain ⟨rfl, entries, hdir⟩ := follow_noName ((hmore [noName]).symm.trans h)
      cases hat.symm.trans hdir
  induction rounds generalizing here names with
  | zero => cases h
  | succ rounds ihJump =>
    rw [follow] at h
    fun_induction followNames top Purpose.target (top.follow .target rounds) here names with
    | case1 => exact .inl h
    | case2 here name names entries hdir hname ih =>
      rw [follow_stay hdir hname]
      exact ih h
    | case3 here names entries hdir hstay ih =>
      rw [follow_up hdir]
      exact ih h
    | case4 => cases h
    | case5 => cases h
    | case6 here name names entries hdir hstay hup hcreate hchild hlong hcreation =>
      cases hcreation.1
    | case7 => cases h
    | case8 here name names entries hdir hstay hup hcreate target hchild hitself => cases hitself.1
    | case9 here name names entries hdir hstay hup hcreate target hchild =>
      have hnames : ¬(purpose = .creation ∧ names = [noName]) := by
        rintro ⟨hcreation, rfl⟩
        exact hslash h hcreation
      by_cases hitself : purpose = .itself ∧ names = []
      · -- a link that stands last is not followed
        refine .inr ⟨hitself.1, here ++ [name], target, ?_, ?_⟩
        · simp [follow, followNames, hdir, hstay, hup, hchild, hitself]
        · rw [at?_concat, hdir, Option.bind_some, hchild]
      · rw [follow_jump hdir hstay hup hnames hchild hitself]
        exact ihJump h
    | case10 here name names entries hdir hstay hup hcreate node hnode hchild ih =>
      have hnames : ¬(purpose = .creation ∧ names = [noName]) := by
        rintro ⟨hcreation, rfl⟩
        exact @hslash (rounds + 1) _ [] h hcreation
      rw [follow_down hdir hstay hup hnames hchild hnode]
      exact ih h
    | case11 => cases h

/-- The names on the way from a node to a file below it lead straight there. -/
theorem follow_eq_append {node : Node} (hat : top.at? here = some node) {content : Bytes}
    (hfile : node.at? names = some (file content)) (hnames : ∀ name ∈ names, RawPath.IsName name) :
    top.follow .target (rounds + 1) here names = .ok (here ++ names) := by
  induction names generalizing here node with
  | nil => rw [follow_nil, List.append_nil]
  | cons name names ih =>
    obtain ⟨hne, hdot, hdotDot, -⟩ := hnames name List.mem_cons_self
    obtain ⟨inner, hchild, hinner⟩ := Option.bind_eq_some_iff.1 hfile
    obtain ⟨entries, rfl⟩ := exists_entries_of_child? hchild
    have hbelow : top.at? (here ++ [name]) = some inner := by
      rw [at?_concat, hat, Option.bind_some, hchild]
    have hlink : ∀ target, inner ≠ link target := by
      rintro target rfl
      cases names <;> cases hinner
    rw [follow_down hat (not_or.2 ⟨hne, hdot⟩) hdotDot (by simp) hchild hlink,
      ih hbelow hinner fun n hn => hnames n (List.mem_cons_of_mem name hn), List.append_assoc,
      List.singleton_append]

end

/-! ## Reading and writing -/

/-- The system takes the path: it is not too long, and there is no zero byte in it. -/
def Usable (path : RawPath) : Prop :=
  0 ∉ path ∧ path.length < maxPathLength

instance : DecidablePred Usable := fun path =>
  inferInstanceAs (Decidable (0 ∉ path ∧ path.length < maxPathLength))

section

variable {top : Node} {path : RawPath} {place : Place}

theorem read_eq_ok_iff {content : Bytes} : top.read path = .ok content ↔
    ∃ place, top.locate .target path = .ok place ∧ top.at? place = some (file content) := by
  unfold read
  cases hloc : top.locate .target path with
  | error e => simp [bind, Except.bind]
  | ok place =>
    simp only [bind, Except.bind, Except.ok.injEq, exists_eq_left']
    cases hat : top.at? place with
    | none => simp
    | some node => cases node <;> simp

theorem locate_eq_ok_iff {purpose : Purpose} : top.locate purpose path = .ok place ↔
    Usable path ∧ path ≠ [] ∧ top.follow purpose (maxLinks + 1) [] (steps path) = .ok place := by
  unfold locate Usable
  by_cases hnul : 0 ∈ path
  · simp [hnul]
  by_cases hempty : path = []
  · simp [hempty]
  by_cases hlong : maxPathLength ≤ path.length
  · simp [hnul, hempty, hlong, Nat.not_lt.2 hlong]
  · simp [hnul, hempty, hlong, Nat.lt_of_not_le hlong]

/-- The path of a file that can be read is one at which a file can be made. -/
theorem locate_creation {content : Bytes} (h : top.locate .target path = .ok place)
    (hat : top.at? place = some (file content)) : top.locate .creation path = .ok place := by
  obtain ⟨husable, hne, hfollow⟩ := locate_eq_ok_iff.1 h
  refine locate_eq_ok_iff.2 ⟨husable, hne, ?_⟩
  exact (follow_of_target .creation hfollow fun _ => ⟨content, hat⟩).resolve_right (by simp)

/-- A file that can be read can be written. -/
theorem write_eq {content : Bytes} (h : top.locate .target path = .ok place)
    (hat : top.at? place = some (file content)) (new : Bytes) :
    top.write path new = .ok (set (file new) place top) := by
  rw [write, locate_creation h hat]
  simp only [bind, Except.bind, hat]

theorem read_set_self {old : Bytes} (h : top.locate .target path = .ok place)
    (hat : top.at? place = some (file old)) (new : Bytes) :
    (set (file new) place top).read path = .ok new := by
  refine read_eq_ok_iff.2 ⟨place, ?_, at?_set_self _ _ _⟩
  rw [locate_congr (shape_set hat new), h]

theorem read_set_of_ne {old : Bytes} (h : top.locate .target path ≠ .ok place)
    (hat : top.at? place = some (file old)) (new : Bytes) :
    (set (file new) place top).read path = top.read path := by
  rw [read, read, locate_congr (shape_set hat new)]
  cases hloc : top.locate .target path with
  | error e => rfl
  | ok other =>
    have hne : other ≠ place := fun heq => h (heq ▸ hloc)
    have hshape : ((set (file new) place top).at? other).map shape = (top.at? other).map shape := by
      rw [← at?_shape, ← at?_shape, shape_set hat new]
    have hfile := at?_set_of_ne hat new hne
    simp only [bind, Except.bind]
    generalize (set (file new) place top).at? other = found at hshape hfile ⊢
    generalize top.at? other = node at hshape hfile ⊢
    cases node with
    | none =>
      obtain rfl : found = none := by simpa using hshape
      rfl
    | some node =>
      obtain ⟨other, rfl, hother⟩ := Option.map_eq_some_iff.1 hshape
      cases node with
      | file content => rw [(hfile content).2 rfl]
      | link target =>
        cases other <;> cases hother
        rfl
      | directory entries =>
        cases other with
        | directory entries' => rfl
        | file content => cases hother
        | link target => cases hother

end

end Node

end TrueCase
