import TrueCase.CommandLine.Parse

/-!
# The options on both sides of a command

A command line is read as the settings that its words spell, in whichever form each of them is
spelled and on whichever side of the command it stands. What has been read at any point is computed
from the settings alone, so one step of the reader is to add one setting.

## Main definitions

* `Setting`: an option with its value, as it is meant.
* `Setting.Spells`, `Setting.Spelled`: the words in which one setting, and several of them one behind
  the other, can be spelled.
* `Setting.OneSide`: the settings that can stand on one side of a command.
* `Setting.given`: what has been read when the settings have been.
* `Setting.arguments`: what the settings on both sides of a command amount to.

## Main statements

* `Setting.readWords_spelled`: words that spell settings are read as these settings.
* `Setting.parse_spelled`: a command line is read as what the settings on its two sides amount to.
-/

namespace TrueCase

/-- An option with its value, as it is meant. -/
inductive Setting where
  | value (o : ValueOption) (v : Text)
  | verbose
  deriving DecidableEq, Repr

namespace Setting

/-! ## Settings -/

/-- The values of an option, in the order in which they are given. -/
def valuesOf (o : ValueOption) (ss : List Setting) : List Text :=
  ss.filterMap fun
    | value p v => if p = o then some v else none
    | verbose => none

section

variable (o : ValueOption) (ss ts : List Setting) (v : Text)

@[simp] theorem valuesOf_nil : valuesOf o [] = [] := rfl

@[simp] theorem valuesOf_append : valuesOf o (ss ++ ts) = valuesOf o ss ++ valuesOf o ts :=
  List.filterMap_append

@[simp] theorem valuesOf_value (p : ValueOption) :
    valuesOf o [value p v] = if p = o then [v] else [] := by
  by_cases h : p = o <;> simp [valuesOf, h]

@[simp] theorem valuesOf_verbose : valuesOf o [verbose] = [] := rfl

end

/-- The settings that can stand on one side of a command. Only `exclude` can be repeated. A value is
not empty, does not look like an option, and does not start with the sign that can stand in front of
it. -/
structure OneSide (ss : List Setting) : Prop where
  single : ∀ o ≠ ValueOption.exclude, (valuesOf o ss).length ≤ 1
  verbose : ss.count verbose ≤ 1
  proper : ∀ o, ∀ v ∈ valuesOf o ss, v ≠ [] ∧ v.head? ≠ some '-' ∧ v.head? ≠ some '='

theorem OneSide.of_append {ss ts : List Setting} (h : OneSide (ss ++ ts)) : OneSide ss where
  single o ho := by
    have := h.single o ho
    grind [valuesOf_append]
  verbose := by
    have := h.verbose
    grind
  proper o v hmem := by
    have := h.proper o v
    grind [valuesOf_append]

/-- What the settings in front of a command and behind it amount to. -/
def arguments (command : Option Command) (before behind : List Setting) : Args where
  command
  root := (valuesOf .root behind ++ valuesOf .root before).headD Args.defaultRoot
  report := (valuesOf .report behind ++ valuesOf .report before).headD Args.defaultReport
  exclude :=
    if valuesOf .exclude behind = [] then valuesOf .exclude before else valuesOf .exclude behind
  verbose := decide (verbose ∈ before ++ behind)

/-! ## Spellings -/

/-- The long form of an option with a value. -/
def longForm : ValueOption → Text
  | .root => "--root".toList
  | .report => "--report".toList
  | .exclude => "--exclude".toList

/-- The short form of an option with a value, if it has one. -/
def shortForm? : ValueOption → Option Text
  | .root => some "-r".toList
  | .report => none
  | .exclude => some "-e".toList

/-- The words in which a setting can be spelled. -/
inductive Spells : Setting → List Text → Prop where
  | long (o : ValueOption) (v : Text) : Spells (value o v) [longForm o, v]
  | longEquals (o : ValueOption) (v : Text) : Spells (value o v) [longForm o ++ '=' :: v]
  | short {o : ValueOption} {form : Text} (h : shortForm? o = some form) (v : Text) :
    Spells (value o v) [form, v]
  | shortEquals {o : ValueOption} {form : Text} (h : shortForm? o = some form) (v : Text) :
    Spells (value o v) [form ++ '=' :: v]
  | attached {o : ValueOption} {form : Text} (h : shortForm? o = some form) (v : Text) :
    Spells (value o v) [form ++ v]
  | verbose : Spells verbose ["--verbose".toList]
  | shortVerbose : Spells verbose ["-v".toList]

/-- The words in which settings can be spelled, one behind the other. A short form that takes no
value can share its hyphen with the short form behind it. -/
inductive Spelled : List Setting → List Text → Prop where
  | nil : Spelled [] []
  | cons {s : Setting} {ss : List Setting} {form words : List Text} (h : Spells s form)
    (hs : Spelled ss words) : Spelled (s :: ss) (form ++ words)
  | row {ss : List Setting} {c : Char} {rest : Text} {words : List Text} (hc : c ≠ '-')
    (h : Spelled ss ("-v".toList :: ('-' :: c :: rest) :: words)) :
    Spelled ss (('-' :: 'v' :: c :: rest) :: words)

/-! ## Words -/

theorem splitValue_append {name : Text} (h : '=' ∉ name) (v : Text) :
    splitValue (name ++ '=' :: v) = (name, some v) := by
  have hname : ∀ c ∈ name, decide (c ≠ '=') = true := by
    intro c hc
    exact decide_eq_true fun heq => h (heq ▸ hc)
  rw [splitValue, List.dropWhile_append_of_pos hname, List.takeWhile_append_of_pos hname]
  simp

theorem ofText_longForm (o : ValueOption) :
    Word.ofText (longForm o) = .long (AnyOption.value o).long none := by
  cases o <;> decide

theorem ofText_longForm_equals (o : ValueOption) (v : Text) :
    Word.ofText (longForm o ++ '=' :: v) = .long (AnyOption.value o).long (some v) := by
  have hname : '=' ∉ (AnyOption.value o).long := by
    cases o <;> decide
  have hform : longForm o ++ '=' :: v = '-' :: '-' :: ((AnyOption.value o).long ++ '=' :: v) := by
    cases o <;> rfl
  have hword (rest : Text) (hrest : rest ≠ []) : Word.ofText ('-' :: '-' :: rest) =
      .long (splitValue rest).1 (splitValue rest).2 := by
    cases rest with
    | nil => exact absurd rfl hrest
    | cons c rest => rfl
  rw [hform, hword _ (by simp), splitValue_append hname]

theorem ofLong?_value (level : Level) (o : ValueOption) :
    level.ofLong? (AnyOption.value o).long = some (.value o) := by
  cases level with
  | top => cases o <;> decide
  | command name => cases name <;> cases o <;> decide

theorem ofText_short {c : Char} (hc : c ≠ '-') (rest : Text) :
    Word.ofText ('-' :: c :: rest) = .short (c :: rest) := by
  simp [Word.ofText, hc]

theorem exists_ofShort? {o : ValueOption} {form : Text} (h : shortForm? o = some form) :
    ∃ c, c ≠ '-' ∧ form = ['-', c] ∧ ∀ level : Level, level.ofShort? c = some (.value o) := by
  have hlookup (c : Char) (htop : Level.top.ofShort? c = some (.value o))
      (hcommand : ∀ name, (Level.command name).ofShort? c = some (.value o)) (level : Level) :
      level.ofShort? c = some (.value o) := by
    cases level with
    | top => exact htop
    | command name => exact hcommand name
  cases o with
  | root =>
    cases h
    exact ⟨'r', by decide, rfl, hlookup 'r' (by decide) fun name => by cases name <;> decide⟩
  | report => cases h
  | exclude =>
    cases h
    exact ⟨'e', by decide, rfl, hlookup 'e' (by decide) fun name => by cases name <;> decide⟩

theorem ofShort?_verbose (level : Level) : level.ofShort? 'v' = some (.switch .verbose) := by
  cases level with
  | top => decide
  | command name => cases name <;> decide

theorem ofLong?_verbose (level : Level) :
    level.ofLong? "verbose".toList = some (.switch .verbose) := by
  cases level with
  | top => decide
  | command name => cases name <;> decide

theorem ofText_proper {v : Text} (h : v.head? ≠ some '-') : Word.ofText v = .plain := by
  cases v with
  | nil => rfl
  | cons c v =>
    have hc : c ≠ '-' := fun heq => h (by rw [heq]; rfl)
    simp [Word.ofText, hc]

/-- A word that looks like an option names no command. -/
theorem namesCommand_eq_false {word : Text} (h : Word.ofText word ≠ .plain) (level : Level) :
    namesCommand level word = false := by
  have hhelp : decide (word = "help".toList) = false :=
    decide_eq_false fun heq => h (by rw [heq]; rfl)
  have hname : CommandName.ofText? word = none := by
    refine List.find?_eq_none.2 fun name _ hword => h ?_
    rw [← of_decide_eq_true hword]
    cases name <;> rfl
  rw [namesCommand, hhelp, hname]
  exact Bool.and_false _

/-! ## Steps of the reader -/

section

variable {level : Level} {g : Given} {word v : Text} {words : List Text} {o : ValueOption}

theorem readWords_long {name : Text} {attached : Option Text}
    (h : Word.ofText word = .long name attached) : readWords level g (word :: words) =
      g.readLong level name attached >>= fun g => readWords level g words := by
  have hoption : Word.ofText word ≠ .plain := by
    rw [h]
    exact Word.noConfusion
  rw [readWords.eq_def]
  simp only [namesCommand_eq_false hoption, Bool.and_false, Bool.false_eq_true, if_false, h]

theorem readWords_short {flags : Text} (h : Word.ofText word = .short flags) :
    readWords level g (word :: words) =
      g.readShort level flags >>= fun g => readWords level g words := by
  have hoption : Word.ofText word ≠ .plain := by
    rw [h]
    exact Word.noConfusion
  rw [readWords.eq_def]
  simp only [namesCommand_eq_false hoption, Bool.and_false, Bool.false_eq_true, if_false, h]

theorem readWords_longForm (o : ValueOption) : readWords level g (longForm o :: words) =
    g.expect o >>= fun g => readWords level g words := by
  rw [readWords_long (ofText_longForm o)]
  simp only [Given.readLong, ofLong?_value]

theorem readWords_longForm_equals (o : ValueOption) (v : Text) :
    readWords level g ((longForm o ++ '=' :: v) :: words) =
      g.attach o v >>= fun g => readWords level g words := by
  rw [readWords_long (ofText_longForm_equals o v)]
  simp only [Given.readLong, ofLong?_value]

theorem readWords_verbose : readWords level g ("--verbose".toList :: words) =
    g.switch level .verbose >>= fun g => readWords level g words := by
  have hword : Word.ofText "--verbose".toList = .long "verbose".toList none := by decide
  rw [readWords_long hword]
  simp only [Given.readLong, ofLong?_verbose]

theorem readWords_shortForm {form : Text} (h : shortForm? o = some form) :
    readWords level g (form :: words) = g.expect o >>= fun g => readWords level g words := by
  obtain ⟨c, hc, rfl, hlookup⟩ := exists_ofShort? h
  rw [readWords_short (ofText_short hc [])]
  simp only [Given.readShort, hlookup]

theorem readWords_shortForm_equals {form : Text} (h : shortForm? o = some form) (v : Text) :
    readWords level g ((form ++ '=' :: v) :: words) =
      g.attach o v >>= fun g => readWords level g words := by
  obtain ⟨c, hc, rfl, hlookup⟩ := exists_ofShort? h
  rw [List.cons_append, List.singleton_append, readWords_short (ofText_short hc _)]
  simp only [Given.readShort, hlookup]

theorem readWords_shortForm_append {form : Text} (h : shortForm? o = some form) (hne : v ≠ [])
    (hequals : v.head? ≠ some '=') : readWords level g ((form ++ v) :: words) =
      g.attach o v >>= fun g => readWords level g words := by
  obtain ⟨c, hc, rfl, hlookup⟩ := exists_ofShort? h
  rw [List.cons_append, List.singleton_append, readWords_short (ofText_short hc _)]
  cases v with
  | nil => exact absurd rfl hne
  | cons d v =>
    have hd : d ≠ '=' := fun heq => hequals (by rw [heq]; rfl)
    simp [Given.readShort, hlookup, hd]

theorem readWords_shortVerbose : readWords level g ("-v".toList :: words) =
    g.switch level .verbose >>= fun g => readWords level g words := by
  have hword : Word.ofText "-v".toList = .short ['v'] := by decide
  rw [readWords_short hword]
  simp only [Given.readShort, ofShort?_verbose]
  cases g.switch level .verbose <;> rfl

/-- The word behind an open option is its value, whatever else it may name. -/
theorem readWords_value (h : v.head? ≠ some '-') :
    readWords level { g with pending := some (o, none) } (v :: words) =
      readWords level { g with pending := some (o, some v) } words := by
  rw [readWords.eq_def]
  simp only [Given.expectsValue, Bool.not_true, Bool.false_and, Bool.false_eq_true, if_false,
    ofText_proper h]

/-- Forms in a row are read as if each had a hyphen of its own. -/
theorem readWords_row {c : Char} (hc : c ≠ '-') (rest : Text) :
    readWords level g (('-' :: 'v' :: c :: rest) :: words) =
      readWords level g ("-v".toList :: ('-' :: c :: rest) :: words) := by
  rw [readWords_short (ofText_short (by decide) _), readWords_shortVerbose]
  simp only [Given.readShort, ofShort?_verbose]
  cases g.switch level .verbose with
  | error e => rfl
  | ok g => exact (readWords_short (ofText_short hc rest)).symm

end

/-! ## What has been read -/

/-- What has been read when the settings have been read and none of them is open. -/
def given (ss : List Setting) : Given where
  root := (valuesOf .root ss).head?
  report := (valuesOf .report ss).head?
  exclude := valuesOf .exclude ss
  verbose := decide (verbose ∈ ss)

/-- The settings have been read: no value is awaited, and what is left when the open option is closed
is what they say. -/
structure HasRead (g : Given) (ss : List Setting) : Prop where
  settled : g.expectsValue = false
  close : g.close = .ok (given ss)

theorem hasRead_given (ss : List Setting) : HasRead (given ss) ss :=
  ⟨rfl, rfl⟩

section

variable {level : Level} {g : Given} {ss : List Setting} {o : ValueOption} {v : Text}

theorem store_given (h : OneSide (ss ++ [value o v])) :
    (given ss).store v o = .ok (given (ss ++ [value o v])) := by
  obtain ⟨hne, -, -⟩ := h.proper o v (by simp)
  have hfirst (ho : o ≠ .exclude) : valuesOf o ss = [] := by
    have hlength := h.single o ho
    simpa using hlength
  cases o with
  | root => simp [Given.store, given, hfirst, hne]
  | report => simp [Given.store, given, hfirst, hne]
  | exclude => simp [Given.store, given]

theorem hasRead_value (h : OneSide (ss ++ [value o v])) :
    HasRead { given ss with pending := some (o, some v) } (ss ++ [value o v]) :=
  ⟨rfl, store_given h⟩

theorem HasRead.attach (hg : HasRead g ss) (h : OneSide (ss ++ [value o v])) :
    g.attach o v = .ok (given (ss ++ [value o v])) := by
  rw [Given.attach, hg.close]
  exact store_given h

theorem HasRead.expect (hg : HasRead g ss) (o : ValueOption) :
    g.expect o = .ok { given ss with pending := some (o, none) } := by
  rw [Given.expect, hg.close]
  rfl

theorem HasRead.switch (hg : HasRead g ss) (h : OneSide (ss ++ [verbose])) (level : Level) :
    g.switch level .verbose = .ok (given (ss ++ [verbose])) := by
  have hnone : verbose ∉ ss := by
    have hcount := h.verbose
    grind
  rw [Given.switch, hg.close]
  simp [given, hnone, bind, Except.bind]

/-! ## Runs of the reader -/

/-- A word that opens an option is read with its value behind it. -/
theorem exists_hasRead_of_expect (hg : HasRead g ss) (h : OneSide (ss ++ [value o v])) {word : Text}
    (hword : ∀ words, readWords level g (word :: words) =
      g.expect o >>= fun g => readWords level g words) :
    ∃ g', HasRead g' (ss ++ [value o v]) ∧
      ∀ words, readWords level g ([word, v] ++ words) = readWords level g' words := by
  refine ⟨_, hasRead_value h, fun words => ?_⟩
  obtain ⟨-, hhyphen, -⟩ := h.proper o v (by simp)
  rw [List.cons_append, hword, hg.expect]
  exact readWords_value hhyphen

/-- A word that comes to its end with nothing open is read for itself. -/
theorem exists_hasRead_of_ok {s : Setting} {taken : Except UsageError Given} {word : Text}
    (hword : ∀ words, readWords level g (word :: words) =
      taken >>= fun g => readWords level g words) (htaken : taken = .ok (given (ss ++ [s]))) :
    ∃ g', HasRead g' (ss ++ [s]) ∧
      ∀ words, readWords level g ([word] ++ words) = readWords level g' words := by
  refine ⟨_, hasRead_given _, fun words => ?_⟩
  rw [List.singleton_append, hword, htaken]
  rfl

/-- The words of a setting are read as this setting. -/
theorem readWords_spells {s : Setting} {form : List Text} (hform : Spells s form)
    (hg : HasRead g ss) (h : OneSide (ss ++ [s])) (level : Level) :
    ∃ g', HasRead g' (ss ++ [s]) ∧
      ∀ words, readWords level g (form ++ words) = readWords level g' words := by
  cases hform with
  | long o v => exact exists_hasRead_of_expect hg h fun words => readWords_longForm o
  | longEquals o v =>
    exact exists_hasRead_of_ok (fun words => readWords_longForm_equals o v) (hg.attach h)
  | short hshort v => exact exists_hasRead_of_expect hg h fun words => readWords_shortForm hshort
  | shortEquals hshort v =>
    exact exists_hasRead_of_ok (fun words => readWords_shortForm_equals hshort v) (hg.attach h)
  | @attached o form hshort v =>
    obtain ⟨hne, -, hequals⟩ := h.proper o v (by simp)
    exact exists_hasRead_of_ok (fun words => readWords_shortForm_append hshort hne hequals)
      (hg.attach h)
  | verbose => exact exists_hasRead_of_ok (fun words => readWords_verbose) (hg.switch h level)
  | shortVerbose =>
    exact exists_hasRead_of_ok (fun words => readWords_shortVerbose) (hg.switch h level)

/-- Words that spell settings are read as these settings, on either side of a command and behind
any that have been read before. -/
theorem readWords_spelled {ts : List Setting} {words : List Text} (hwords : Spelled ts words)
    (hg : HasRead g ss) (h : OneSide (ss ++ ts)) (level : Level) :
    ∃ g', HasRead g' (ss ++ ts) ∧
      ∀ rest, readWords level g (words ++ rest) = readWords level g' rest := by
  -- by the forms of the words; with each, the settings that have been read grow by one
  induction hwords generalizing g ss with
  | nil => exact ⟨g, by rwa [List.append_nil], fun rest => rfl⟩
  | @cons s ts form words hform hwords ih =>
    rw [List.append_cons] at h ⊢
    obtain ⟨g₁, hg₁, hread₁⟩ := readWords_spells hform hg h.of_append level
    obtain ⟨g₂, hg₂, hread₂⟩ := ih hg₁ h
    refine ⟨g₂, hg₂, fun rest => ?_⟩
    rw [List.append_assoc, hread₁, hread₂]
  | row hc hwords ih =>
    obtain ⟨g', hg', hread⟩ := ih hg h
    refine ⟨g', hg', fun rest => ?_⟩
    rw [List.cons_append, readWords_row hc]
    exact hread rest

end

/-! ## The command line -/

/-- The words of one side, read from the start. -/
theorem readWords_side {ss : List Setting} {words : List Text} (hwords : Spelled ss words)
    (h : OneSide ss) (level : Level) : ∃ g, HasRead g ss ∧
      ∀ rest, readWords level {} (words ++ rest) = readWords level g rest :=
  readWords_spelled hwords (hasRead_given []) h level

/-- The reader stops at a command, if no value is awaited. -/
theorem readWords_command {g : Given} (h : g.expectsValue = false) (name : CommandName)
    (words : List Text) : readWords .top g (name.text :: words) = .ok (g, some (name, words)) := by
  have hname : CommandName.ofText? name.text = some name := by
    cases name <;> decide
  rw [readWords.eq_def]
  simp [h, namesCommand, hname]

theorem combine_given (command : Option Command) (before behind : List Setting) :
    Args.combine command (given before) (given behind) = arguments command before behind := by
  by_cases h : valuesOf .exclude behind = [] <;>
    simp [Args.combine, arguments, given, List.headD_eq_head?_getD, h]

/-- A command line is read as what the settings on the two sides of its command amount to, in
whichever form each of them is spelled. What stands behind the command replaces what stands in front
of it. Without a command the tree is fixed, by the settings in front alone. -/
theorem parse_spelled (name : CommandName) {before behind : List Setting} {pre post : List Text}
    (hpre : Spelled before pre) (hpost : Spelled behind post) (hbefore : OneSide before)
    (hbehind : OneSide behind) :
    Args.parse (pre ++ name.text :: post) =
        .ok (arguments (some (name.command false)) before behind) ∧
      Args.parse pre = .ok (arguments none before []) ∧
      (arguments none before []).effective = .fix false := by
  obtain ⟨g, hg, hread⟩ := readWords_side hpre hbefore .top
  obtain ⟨g', hg', hread'⟩ := readWords_side hpost hbehind (.command name)
  have hend {level : Level} (g : Given) : readWords level g [] = .ok (g, none) := rfl
  refine ⟨?_, ?_, rfl⟩
  · have hpost : readWords (.command name) {} post = .ok (g', none) := by
      rw [← List.append_nil post, hread', hend]
    rw [Args.parse, hread, readWords_command hg.settled]
    simp only [bind, Except.bind, hpost, hg.close, hg'.close, pure, Except.pure]
    exact congrArg Except.ok (combine_given _ before behind)
  · rw [Args.parse, ← List.append_nil pre, hread, hend]
    simp only [bind, Except.bind, hg.close, pure, Except.pure]
    exact congrArg Except.ok (combine_given none before [])

/-- A value can be the name of a command, and forms in a row can end in one that takes a value. -/
theorem parse_spelled_names :
    Args.parse ["-vrcheck".toList, "-e".toList, "help".toList, "check".toList, "--exclude".toList,
        "scan".toList, "-e=*.js".toList, "--report=fix=1".toList] =
      .ok { command := some .check, root := "check".toList, report := "fix=1".toList
            exclude := ["scan".toList, "*.js".toList], verbose := true } ∧
    Args.parse ["-vrcheck".toList, "-e".toList, "help".toList] =
      .ok { command := none, root := "check".toList, report := "import-fix-report.json".toList
            exclude := ["help".toList], verbose := true } := by
  have hpre : Spelled [verbose, value .root "check".toList, value .exclude "help".toList]
      ["-vrcheck".toList, "-e".toList, "help".toList] := by
    have hrest : Spelled [value .exclude "help".toList] ["-e".toList, "help".toList] :=
      .cons (.short (o := .exclude) rfl "help".toList) .nil
    have hsplit : Spelled [verbose, value .root "check".toList, value .exclude "help".toList]
        ["-v".toList, '-' :: 'r' :: "check".toList, "-e".toList, "help".toList] :=
      .cons .shortVerbose (.cons (.attached (o := .root) rfl "check".toList) hrest)
    exact .row (c := 'r') (by decide) hsplit
  have hpost : Spelled [value .exclude "scan".toList, value .exclude "*.js".toList,
      value .report "fix=1".toList]
      ["--exclude".toList, "scan".toList, "-e=*.js".toList, "--report=fix=1".toList] :=
    .cons (.long .exclude "scan".toList) (.cons (.shortEquals (o := .exclude) rfl "*.js".toList)
      (.cons (.longEquals .report "fix=1".toList) .nil))
  have hbefore : OneSide [verbose, value .root "check".toList, value .exclude "help".toList] :=
    ⟨fun o => by cases o <;> decide, by decide, fun o => by cases o <;> decide⟩
  have hbehind : OneSide [value .exclude "scan".toList, value .exclude "*.js".toList,
      value .report "fix=1".toList] :=
    ⟨fun o => by cases o <;> decide, by decide, fun o => by cases o <;> decide⟩
  obtain ⟨hcommand, hnone, -⟩ := parse_spelled .check hpre hpost hbefore hbehind
  exact ⟨hcommand, hnone⟩

end Setting

end TrueCase
