import UrlPolicy.CommandLine.Load
import UrlPolicy.Proofs.RuleList
import UrlPolicy.Proofs.Settings

/-!
What the policy of a command line is loaded from: a settings document and two rows of list files.
Loading succeeds if all of them can be read and the mode is known, and the policy depends on the
files only through the settings and the rules of each row one behind the other.
-/

set_option autoImplicit false

namespace UrlPolicy.CommandLine

/-- What has been read for a policy: settings, and the texts of the list files in order. -/
structure Inputs where
  settings : Settings
  allowLists : List Text
  denyLists : List Text

namespace Inputs

def allowRules (i : Inputs) : List Text :=
  i.settings.allowRules ++ i.allowLists.flatMap RuleList.parse

def denyRules (i : Inputs) : List Text :=
  i.settings.denyRules ++ i.denyLists.flatMap RuleList.parse

def merged (i : Inputs) : Settings :=
  { i.settings with allowRules := i.allowRules, denyRules := i.denyRules }

def policy (i : Inputs) (mode : Mode) : Policy where
  rules := (compile i.allowRules i.denyRules).rules
  allowKeywords := i.settings.allowKeywords.filterMap Keyword.ofJson?
  denyKeywords := i.settings.denyKeywords.filterMap Keyword.ofJson?
  mode := mode

end Inputs

/-- The settings of a document. Without a document nothing is set. -/
inductive ReadsSettings (files : Files) : Option Text → Settings → Prop where
  | none : ReadsSettings files none .empty
  | document {path document : Text} {s : Settings} (hfile : files path = .ok document)
      (hread : Settings.read document = .ok s) : ReadsSettings files (some path) s

def ReadsTexts (files : Files) (paths contents : List Text) : Prop :=
  List.Forall₂ (fun path content => files path = .ok content) paths contents

structure Inputs.ReadFrom (i : Inputs) (files : Files) (source : PolicySource) : Prop where
  settings : ReadsSettings files source.settings i.settings
  allowLists : ReadsTexts files source.allowFiles i.allowLists
  denyLists : ReadsTexts files source.denyFiles i.denyLists

inductive IsMode : Option Text → Mode → Prop where
  | unset : IsMode none .blacklist
  | set {raw : Text} {mode : Mode} (h : Mode.parse? raw = some mode) : IsMode (some raw) mode

inductive Unloadable (files : Files) (source : PolicySource) : Prop where
  | settings {path : Text} {e : FileError} (hpath : source.settings = some path)
      (h : files path = .error e)
  | document {path document : Text} {fault : Json.Fault} (hpath : source.settings = some path)
      (hfile : files path = .ok document) (h : Settings.read document = .error fault)
  | list {path : Text} {e : FileError} (hpath : path ∈ source.allowFiles ++ source.denyFiles)
      (h : files path = .error e)
  | mode {s : Settings} {raw : Text} (hread : ReadsSettings files source.settings s)
      (hmode : source.mode.or s.mode = some raw) (h : Mode.parse? raw = none)

/-! List files. -/

section Lists

variable {files files' : Files} {paths before after contents : List Text} {path : Text}

theorem readLists_cons (files : Files) (path : Text) (paths : List Text) :
    (readLists files (path :: paths)).2 =
      match files path with
      | .error e => .error (failedTo "read" path e)
      | .ok content => (readLists files paths).2.map (RuleList.parse content ++ ·) := by
  rw [readLists]
  cases files path <;> rfl

theorem readLists_of_texts (h : ReadsTexts files paths contents) :
    (readLists files paths).2 = .ok (contents.flatMap RuleList.parse) := by
  induction h with
  | nil => rfl
  | cons hfile _ ih =>
    rw [readLists_cons, hfile, ih]
    rfl

theorem readLists_of_error {e : FileError} (hpath : path ∈ paths) (h : files path = .error e) :
    ∃ message, (readLists files paths).2 = .error message := by
  induction paths with
  | nil => cases hpath
  | cons q paths ih =>
    rw [readLists_cons]
    cases hq : files q with
    | error e => exact ⟨_, rfl⟩
    | ok content =>
      rcases List.mem_cons.1 hpath with rfl | hpath
      · rw [h] at hq
        cases hq
      · obtain ⟨message, hmessage⟩ := ih hpath
        exact ⟨message, by rw [hmessage]; rfl⟩

theorem exists_texts_or_error (files : Files) (paths : List Text) :
    (∃ contents, ReadsTexts files paths contents) ∨
      ∃ path ∈ paths, ∃ e, files path = .error e := by
  induction paths with
  | nil => exact .inl ⟨[], .nil⟩
  | cons path paths ih =>
    cases hfile : files path with
    | error e => exact .inr ⟨path, List.mem_cons_self, e, hfile⟩
    | ok content =>
      rcases ih with ⟨contents, hcontents⟩ | ⟨q, hq, hfail⟩
      · exact .inl ⟨content :: contents, .cons hfile hcontents⟩
      · exact .inr ⟨q, List.mem_cons_of_mem path hq, hfail⟩

/-- Reading goes on from some file in the same way if the rest gives the same rules or the same
failure. -/
theorem readLists_append_congr (tail tail' : List Text)
    (hbefore : ∀ path ∈ before, files' path = files path)
    (h : (readLists files' tail').2 = (readLists files tail).2) :
    (readLists files' (before ++ tail')).2 = (readLists files (before ++ tail)).2 := by
  induction before with
  | nil => exact h
  | cons path before ih =>
    rw [List.cons_append, List.cons_append, readLists_cons, readLists_cons,
      hbefore path List.mem_cons_self, ih fun q hq => hbefore q (List.mem_cons_of_mem path hq)]

theorem readLists_congr (h : ∀ path ∈ paths, files' path = files path) :
    (readLists files' paths).2 = (readLists files paths).2 := by
  simpa using readLists_append_congr [] [] h rfl

end Lists

/-- A text with the lines of two others, one after the other. A line feed may stand in between,
whether the first one ends with a line feed or not. -/
inductive MergesLines (s t : Text) : Text → Prop where
  | lines {u : Text} (h : Text.lines u = Text.lines s ++ Text.lines t) : MergesLines s t u
  | feed : MergesLines s t (s ++ '\n' :: t)

theorem MergesLines.parse {s t u : Text} (h : MergesLines s t u) :
    RuleList.parse u = RuleList.parse s ++ RuleList.parse t := by
  cases h with
  | lines h => rw [RuleList.parse, h, List.map_append, List.filter_append]; rfl
  | feed => exact RuleList.parse_append s t

/-- Two neighbours in a row of files that one file with the lines of both takes the place of. -/
inductive MergesRow (files files' : Files) : List Text → List Text → Prop where
  | mk {before after : List Text} {p q r s t u : Text} (hp : files p = .ok s)
      (hq : files q = .ok t) (hr : files' r = .ok u) (h : MergesLines s t u)
      (hothers : ∀ path ∈ before ++ after, files' path = files path) :
      MergesRow files files' (before ++ p :: q :: after) (before ++ r :: after)

theorem MergesRow.readLists {files files' : Files} {paths paths' : List Text}
    (h : MergesRow files files' paths paths') :
    (readLists files' paths').2 = (readLists files paths).2 := by
  obtain ⟨hp, hq, hr, hlines, hothers⟩ := h
  refine readLists_append_congr _ _ (fun path hpath => hothers path (by simp [hpath])) ?_
  have hafter := readLists_congr fun path hpath => hothers path (List.mem_append_right _ hpath)
  simp only [readLists_cons, hp, hq, hr, hlines.parse, hafter]
  cases (CommandLine.readLists files _).2 <;> simp [Except.map]

/-! Settings. -/

section Settings

variable {files files' : Files} {document? : Option Text} {s : Settings}

def baseSettings (files : Files) (document? : Option Text) : Except Text Settings :=
  (document?.map (readSettings files)).getD (.ok .empty)

theorem baseSettings_of_reads (h : ReadsSettings files document? s) :
    baseSettings files document? = .ok s := by
  cases h with
  | none => rfl
  | document hfile hread => simp [baseSettings, readSettings, hfile, hread, Except.mapError]

end Settings

theorem gather_snd (files : Files) (source : PolicySource) :
    (gather files source).2 = do
      let settings ← baseSettings files source.settings
      let allow ← (readLists files source.allowFiles).2
      let deny ← (readLists files source.denyFiles).2
      return { settings with
        allowRules := settings.allowRules ++ allow
        denyRules := settings.denyRules ++ deny
        mode := source.mode.or settings.mode } := by
  rw [gather, ← baseSettings]
  cases baseSettings files source.settings with
  | error e => rfl
  | ok settings =>
    obtain ⟨lines, allow⟩ := readLists files source.allowFiles
    cases allow with
    | error e => rfl
    | ok allow =>
      obtain ⟨more, deny⟩ := readLists files source.denyFiles
      cases deny <;> rfl

theorem load_snd (files : Files) (source : PolicySource) :
    (load files source).2 =
      match (gather files source).2 with
      | .error e => .error e
      | .ok settings =>
        match settings.compile with
        | .error e => .error e.message
        | .ok compiled =>
          .ok ⟨compiled, settings.allowRules.length, settings.denyRules.length⟩ := by
  rw [load]
  obtain ⟨lines, gathered⟩ := gather files source
  cases gathered <;> rfl

theorem IsMode.effectiveMode {s : Settings} {mode : Mode} (h : IsMode s.mode mode) :
    s.effectiveMode = .ok mode := by
  rw [Settings.effectiveMode]
  generalize s.mode = written at h
  cases h with
  | unset => rfl
  | set h => simp only [h]

section Load

variable {files : Files} {source : PolicySource} {i : Inputs}

theorem gather_of_reads (h : i.ReadFrom files source) :
    (gather files source).2 = .ok { i.merged with mode := source.mode.or i.settings.mode } := by
  rw [gather_snd, baseSettings_of_reads h.settings, readLists_of_texts h.allowLists,
    readLists_of_texts h.denyLists]
  rfl

theorem load_of_reads {mode : Mode} (h : i.ReadFrom files source)
    (hmode : IsMode (source.mode.or i.settings.mode) mode) :
    ∃ loaded, (load files source).2 = .ok loaded ∧ loaded.compiled.policy = i.policy mode := by
  have heffective := IsMode.effectiveMode
    (s := { i.merged with mode := source.mode.or i.settings.mode }) hmode
  rw [load_snd, gather_of_reads h]
  simp only [Settings.compile, heffective]
  exact ⟨_, rfl, rfl⟩

theorem load_of_gather_error {message : Text} (h : (gather files source).2 = .error message) :
    (load files source).2 = .error message := by
  rw [load_snd, h]

theorem load_of_list_error {path : Text} {e : FileError}
    (hpath : path ∈ source.allowFiles ++ source.denyFiles) (h : files path = .error e) :
    ∃ message, (load files source).2 = .error message := by
  have hgather : ∃ message, (gather files source).2 = .error message := by
    rw [gather_snd]
    cases baseSettings files source.settings with
    | error message => exact ⟨message, rfl⟩
    | ok settings =>
      -- the lists for allowing are read first, and their error is the one that is reported
      rcases List.mem_append.1 hpath with hallow | hdeny
      · obtain ⟨message, hmessage⟩ := readLists_of_error hallow h
        exact ⟨message, by rw [hmessage]; rfl⟩
      · obtain ⟨message, hmessage⟩ := readLists_of_error hdeny h
        rw [hmessage]
        cases (readLists files source.allowFiles).2 with
        | error other => exact ⟨other, rfl⟩
        | ok allow => exact ⟨message, rfl⟩
  obtain ⟨message, hmessage⟩ := hgather
  exact ⟨message, load_of_gather_error hmessage⟩

theorem ReadsSettings.readFrom_or_error {s : Settings}
    (h : ReadsSettings files source.settings s) :
    (∃ allow deny, Inputs.ReadFrom ⟨s, allow, deny⟩ files source) ∨
      ∃ path ∈ source.allowFiles ++ source.denyFiles, ∃ e, files path = .error e := by
  rcases exists_texts_or_error files source.allowFiles with ⟨allow, hallow⟩ | ⟨path, hpath, hfail⟩
  · rcases exists_texts_or_error files source.denyFiles with ⟨deny, hdeny⟩ | ⟨path, hpath, hfail⟩
    · exact .inl ⟨allow, deny, h, hallow, hdeny⟩
    · exact .inr ⟨path, List.mem_append_right _ hpath, hfail⟩
  · exact .inr ⟨path, List.mem_append_left _ hpath, hfail⟩

theorem Unloadable.load (h : Unloadable files source) :
    ∃ message, (load files source).2 = .error message := by
  cases h with
  | settings hpath h =>
    have hbase : ∃ message, baseSettings files source.settings = .error message := by
      simp [baseSettings, hpath, readSettings, h]
    obtain ⟨message, hmessage⟩ := hbase
    exact ⟨message, load_of_gather_error (by rw [gather_snd, hmessage]; rfl)⟩
  | document hpath hfile h =>
    have hbase : ∃ message, baseSettings files source.settings = .error message := by
      simp [baseSettings, hpath, readSettings, hfile, h, Except.mapError]
    obtain ⟨message, hmessage⟩ := hbase
    exact ⟨message, load_of_gather_error (by rw [gather_snd, hmessage]; rfl)⟩
  | list hpath h => exact load_of_list_error hpath h
  | mode hread hmode h =>
    rcases hread.readFrom_or_error with ⟨allow, deny, hreads⟩ | ⟨path, hpath, e, he⟩
    · rw [load_snd, gather_of_reads hreads]
      simp only [Settings.compile, Settings.effectiveMode, hmode, h]
      exact ⟨_, rfl⟩
    · exact load_of_list_error hpath he

theorem readFrom_or_unloadable (files : Files) (source : PolicySource) :
    (∃ i mode, Inputs.ReadFrom i files source ∧ IsMode (source.mode.or i.settings.mode) mode) ∨
      Unloadable files source := by
  have hsettings : (∃ s, ReadsSettings files source.settings s) ∨ Unloadable files source := by
    cases hpath : source.settings with
    | none => exact .inl ⟨_, .none⟩
    | some path =>
      cases hfile : files path with
      | error e => exact .inr (.settings hpath hfile)
      | ok document =>
        cases hread : Settings.read document with
        | error fault => exact .inr (.document hpath hfile hread)
        | ok s => exact .inl ⟨s, .document hfile hread⟩
  rcases hsettings with ⟨s, hs⟩ | hfail
  · rcases hs.readFrom_or_error with ⟨allow, deny, hreads⟩ | ⟨path, hpath, e, he⟩
    · cases hmode : source.mode.or s.mode with
      | none => exact .inl ⟨_, .blacklist, hreads, hmode ▸ .unset⟩
      | some raw =>
        cases hparse : Mode.parse? raw with
        | none => exact .inr (.mode hs hmode hparse)
        | some mode => exact .inl ⟨_, mode, hreads, hmode ▸ .set hparse⟩
    · exact .inr (.list hpath he)
  · exact .inr hfail

end Load

/-! Files that are put together in another way. -/

/-- Of one row of list files, two neighbours are merged. All other files stay as they are. -/
inductive MergesFiles (files files' : Files) : PolicySource → PolicySource → Prop where
  | allow {source : PolicySource} {paths : List Text}
      (hrow : MergesRow files files' source.allowFiles paths)
      (hothers : ∀ path ∈ source.settings.toList ++ source.denyFiles, files' path = files path) :
      MergesFiles files files' source { source with allowFiles := paths }
  | deny {source : PolicySource} {paths : List Text}
      (hrow : MergesRow files files' source.denyFiles paths)
      (hothers : ∀ path ∈ source.settings.toList ++ source.allowFiles, files' path = files path) :
      MergesFiles files files' source { source with denyFiles := paths }

theorem baseSettings_congr {files files' : Files} {document? : Option Text}
    (h : ∀ path ∈ document?.toList, files' path = files path) :
    baseSettings files' document? = baseSettings files document? := by
  cases document? with
  | none => rfl
  | some path => simp [baseSettings, readSettings, h path (by simp)]

theorem gather_of_merged {files files' : Files} {source source' : PolicySource}
    (h : MergesFiles files files' source source') :
    (gather files' source').2 = (gather files source).2 := by
  cases h with
  | allow hrow hothers =>
    have hbase := baseSettings_congr fun path hpath => hothers path (List.mem_append_left _ hpath)
    have hdeny := readLists_congr fun path hpath => hothers path (List.mem_append_right _ hpath)
    simp only [gather_snd, hbase, hdeny, hrow.readLists]
  | deny hrow hothers =>
    have hbase := baseSettings_congr fun path hpath => hothers path (List.mem_append_left _ hpath)
    have hallow := readLists_congr fun path hpath => hothers path (List.mem_append_right _ hpath)
    simp only [gather_snd, hbase, hallow, hrow.readLists]

/-- The same rules in other files: all rules of the list files have gone into the settings, or two
files of a row into one. -/
inductive Regroups (files files' : Files) (source source' : PolicySource) : Prop where
  | moved {i : Inputs} (h : i.ReadFrom files source)
      (hmoved : ReadsSettings files' source'.settings i.merged) (hallow : source'.allowFiles = [])
      (hdeny : source'.denyFiles = []) (hmode : source'.mode = source.mode)
  | merged (h : MergesFiles files files' source source')

theorem Regroups.gather {files files' : Files} {source source' : PolicySource}
    (h : Regroups files files' source source') :
    (gather files' source').2 = (gather files source).2 := by
  cases h with
  | @moved i h hmoved hallow hdeny hmode =>
    have hreads : Inputs.ReadFrom ⟨i.merged, [], []⟩ files' source' :=
      ⟨hmoved, hallow ▸ .nil, hdeny ▸ .nil⟩
    rw [gather_of_reads hreads, gather_of_reads h, hmode]
    simp [Inputs.merged, Inputs.allowRules, Inputs.denyRules]
  | merged h => exact gather_of_merged h

end UrlPolicy.CommandLine
