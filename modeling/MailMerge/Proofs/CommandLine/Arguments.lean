import MailMerge.CommandLine.Arguments
/-!
# The arguments of a command that makes a document

* `invocation_generateArguments`: values that do not look like options are what the command works with.
-/
namespace MailMerge.CommandLine

/-- Whether an argument cannot be taken for an option. -/
def IsValue (t : Text) : Prop := t.head? ≠ some '-'

/-- The arguments that name the files of a document to be made. -/
def generateArguments (request cache user site : Text) : List Text :=
  ["generate".toList, "--request".toList, request, "--cache-dir".toList, cache,
    "--user-json".toList, user, "--site-json".toList, site]

theorem wordOf_of_isValue (cs : List Choice) {t : Text} (h : IsValue t) :
    wordOf cs t = .ok (.plain t) := by
  unfold wordOf
  split
  · exact absurd rfl h
  · rfl

/-- A value is a plain word. -/
theorem wordsOf_cons_value (cs : List Choice) {t : Text} (h : IsValue t) {r : List Text}
    {ws : List Word} (hr : wordsOf cs r = .ok ws) : wordsOf cs (t :: r) = .ok (.plain t :: ws) := by
  rw [wordsOf, if_neg (by rintro rfl; exact h rfl), wordOf_of_isValue cs h, hr]
  rfl

/-- An argument that is no separator is the word it stands for. -/
theorem wordsOf_cons_word (cs : List Choice) {t : Text} (h : t ≠ ['-', '-']) {w : Word}
    (hw : wordOf cs t = .ok w) {r : List Text} {ws : List Word} (hr : wordsOf cs r = .ok ws) :
    wordsOf cs (t :: r) = .ok (w :: ws) := by
  rw [wordsOf, if_neg h, hw, hr]
  rfl

/-- An option with a value takes the next plain word. -/
theorem readOptions_valued {cs : List Choice} {stop : Bool} {c : Choice} (h : c.hasValue = true)
    (hne : c ≠ help) (f : Front) (name v : Text) (r : List Word) :
    readOptions cs stop f (.option c name none :: .plain v :: r) =
      readOptions cs stop ⟨f.given ++ [(c, v)], f.excess, f.read + 2⟩ r := by
  have hadd : f.add { given := [(c, v)], open? := some c } 2 =
      .ok ⟨f.given ++ [(c, v)], f.excess, f.read + 2⟩ := by
    unfold Front.add
    rw [if_neg (by simpa using hne), Bool.or_false]
  have hread : readOptions cs stop f (.option c name none :: .plain v :: r) =
      (f.add { given := [(c, v)], open? := some c } 2).bind (readOptions cs stop · r) := by
    obtain ⟨names, hasValue⟩ := c
    cases h
    delta readOptions
    rfl
  rw [hread, hadd]
  rfl

/-- An option of the command that makes a document. -/
def choiceNamed (name : String) : Choice := (choiceOf? generateChoices name.toList).getD help

/-- The word that such an option is. -/
def optionNamed (name : String) : Word := .option (choiceNamed name) name.toList none

variable {request cache user site : Text}

theorem wordsOf_program (hr : IsValue request) (hc : IsValue cache) (hu : IsValue user)
    (hs : IsValue site) :
    wordsOf programChoices (generateArguments request cache user site) =
      .ok [.plain "generate".toList, .unknown, .plain request, .unknown, .plain cache, .unknown,
        .plain user, .unknown, .plain site] :=
  wordsOf_cons_value _ (nofun : IsValue "generate".toList) <|
    wordsOf_cons_word _ (by decide) rfl <| wordsOf_cons_value _ hr <|
    wordsOf_cons_word _ (by decide) rfl <| wordsOf_cons_value _ hc <|
    wordsOf_cons_word _ (by decide) rfl <| wordsOf_cons_value _ hu <|
    wordsOf_cons_word _ (by decide) rfl <| wordsOf_cons_value _ hs rfl

theorem wordsOf_command (hr : IsValue request) (hc : IsValue cache) (hu : IsValue user)
    (hs : IsValue site) :
    wordsOf generateChoices (generateArguments request cache user site).tail =
      .ok [optionNamed "--request", .plain request, optionNamed "--cache-dir", .plain cache,
        optionNamed "--user-json", .plain user, optionNamed "--site-json", .plain site] :=
  wordsOf_cons_word _ (by decide) rfl <| wordsOf_cons_value _ hr <|
    wordsOf_cons_word _ (by decide) rfl <| wordsOf_cons_value _ hc <|
    wordsOf_cons_word _ (by decide) rfl <| wordsOf_cons_value _ hu <|
    wordsOf_cons_word _ (by decide) rfl <| wordsOf_cons_value _ hs rfl

theorem commandOptions_generate (hr : IsValue request) (hc : IsValue cache) (hu : IsValue user)
    (hs : IsValue site) :
    commandOptions generateChoices (generateArguments request cache user site).tail =
      .ok ⟨[(choiceNamed "--request", request), (choiceNamed "--cache-dir", cache),
        (choiceNamed "--user-json", user), (choiceNamed "--site-json", site)], false, 8⟩ := by
  unfold commandOptions
  rw [wordsOf_command hr hc hu hs]
  show readOptions generateChoices false {} _ = _
  unfold optionNamed
  rw [readOptions_valued (by decide) (by decide), readOptions_valued (by decide) (by decide),
    readOptions_valued (by decide) (by decide), readOptions_valued (by decide) (by decide)]
  rfl

/-- Arguments that do not look like options are what the command works with. -/
theorem invocation_generateArguments (hr : IsValue request) (hc : IsValue cache)
    (hu : IsValue user) (hs : IsValue site) :
    invocation (generateArguments request cache user site) =
      .ok { command := .generate request (some cache) (some user) (some site) } := by
  have hcommand : commandOf "generate".toList (generateArguments request cache user site).tail =
      .ok (.generate request (some cache) (some user) (some site)) := by
    unfold commandOf
    rw [if_pos rfl, commandOptions_generate hr hc hu hs]
    rfl
  unfold invocation
  rw [wordsOf_program hr hc hu hs]
  show (commandOf "generate".toList (generateArguments request cache user site).tail >>= _) = _
  rw [hcommand]
  rfl

end MailMerge.CommandLine
