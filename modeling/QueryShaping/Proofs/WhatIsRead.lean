import Mathlib.Data.List.Basic
import QueryShaping.Proofs.GraftingFiles

namespace QueryShaping

namespace Inputs

/-- Reading fails alike, or gives the same and leaves inputs that are alike at some paths. -/
inductive ReadAlike {α : Type} (paths : List String) :
    Except CommandError (α × Inputs) → Except CommandError (α × Inputs) → Prop where
  | failed (error : CommandError) : ReadAlike paths (.error error) (.error error)
  | given (a : α) {rest rest' : Inputs} (alike : AlikeAt paths rest rest') :
      ReadAlike paths (.ok (a, rest)) (.ok (a, rest'))

section

variable {paths : List String} {inputs inputs' : Inputs}

theorem AlikeAt.of_subset {more : List String} (alike : AlikeAt more inputs inputs')
    (subset : ∀ path ∈ paths, path ∈ more) : AlikeAt paths inputs inputs' :=
  fun path hp => alike path (subset path hp)

theorem AlikeAt.withoutStdin (alike : AlikeAt paths inputs inputs') :
    AlikeAt paths { inputs with stdin := "" } { inputs' with stdin := "" } := by
  intro path hp
  have hpath := alike path hp
  split
  · rfl
  · rwa [if_neg ‹_›] at hpath

theorem AlikeAt.read (alike : AlikeAt paths inputs inputs') {path : String} (hp : path ∈ paths) :
    ReadAlike paths (inputs.read path) (inputs'.read path) := by
  have hpath := alike path hp
  unfold Inputs.read
  by_cases hstandard : Path.isStandardInput path = true
  · rw [if_pos hstandard] at hpath
    rw [if_pos hstandard, if_pos hstandard, hpath]
    exact .given _ alike.withoutStdin
  · rw [if_neg hstandard] at hpath
    rw [if_neg hstandard, if_neg hstandard, hpath]
    cases inputs'.file? path with
    | error reason => exact .failed _
    | ok text => exact .given _ alike

theorem ReadAlike.bind {α β : Type} {r r' : Except CommandError (α × Inputs)}
    (h : ReadAlike paths r r') {next : α × Inputs → Except CommandError (β × Inputs)}
    (hnext : ∀ a rest rest', AlikeAt paths rest rest' →
      ReadAlike paths (next (a, rest)) (next (a, rest'))) :
    ReadAlike paths (r >>= next) (r' >>= next) := by
  cases h with
  | failed error => exact .failed error
  | given a alike => exact hnext a _ _ alike

theorem ReadAlike.bind_eq {α β : Type} {r r' : Except CommandError (α × Inputs)}
    (h : ReadAlike paths r r') {next : α × Inputs → Except CommandError β}
    (hnext : ∀ a rest rest', AlikeAt paths rest rest' → next (a, rest) = next (a, rest')) :
    (r >>= next) = (r' >>= next) := by
  cases h with
  | failed error => rfl
  | given a alike => exact hnext a _ _ alike

theorem AlikeAt.readDocument (alike : AlikeAt paths inputs inputs') {path : String}
    (hp : path ∈ paths) :
    ReadAlike paths (inputs.readDocument path) (inputs'.readDocument path) := by
  apply (alike.read hp).bind
  intro text rest rest' halike
  dsimp only
  cases Document.read .usual text with
  | ok d => exact .given d halike
  | error faults => exact .failed _

theorem AlikeAt.readColumns (alike : AlikeAt paths inputs inputs') {path : String}
    (hp : path ∈ paths) :
    ReadAlike paths (inputs.readColumns path) (inputs'.readColumns path) := by
  apply (alike.read hp).bind
  intro text rest rest' halike
  dsimp only
  rcases (Json.read? text).map Column.decodeList with _ | problem | columns
  · exact .failed _
  · exact .failed _
  · exact .given columns halike

theorem AlikeAt.readSettings (alike : AlikeAt paths inputs inputs') {path? : Option String}
    (hp : ∀ path ∈ path?, path ∈ paths) :
    ReadAlike paths (inputs.readSettings path?) (inputs'.readSettings path?) := by
  cases path? with
  | none => exact .given ({} : Settings) alike
  | some path =>
    apply (alike.read (hp path rfl)).bind
    intro text rest rest' halike
    dsimp only
    rcases (Yaml.read? text).map Settings.decode with _ | problem | settings
    · exact .failed _
    · exact .failed _
    · exact .given settings halike

theorem AlikeAt.graftFiles_eq (alike : AlikeAt paths inputs inputs') {settings : GraftSettings}
    {d : Document} {extensions : List String} (hp : ∀ path ∈ extensions, path ∈ paths) :
    inputs.graftFiles settings d extensions = inputs'.graftFiles settings d extensions := by
  induction extensions generalizing inputs inputs' d with
  | nil => rfl
  | cons path rest ih =>
    obtain ⟨hpath, hrest⟩ := List.forall_mem_cons.mp hp
    have hread := alike.read hpath
    rw [graftFiles, graftFiles]
    generalize inputs.read path = r at hread ⊢
    generalize inputs'.read path = r' at hread ⊢
    cases hread with
    | failed error => rfl
    | given text halike =>
      dsimp only
      cases d.graftSource settings (.source text) with
      | error error => rfl
      | ok m => exact ih halike hrest

theorem AlikeAt.run_eq (alike : AlikeAt paths inputs inputs') (settings : Settings)
    (command : Command) (hp : ∀ path ∈ command.paths, path ∈ paths) :
    command.run settings inputs = command.run settings inputs' := by
  cases command with
  | graft base extensions =>
    obtain ⟨hbase, hextensions⟩ := List.forall_mem_cons.mp hp
    apply (alike.readDocument hbase).bind_eq
    intro d rest rest' halike
    exact halike.graftFiles_eq hextensions
  | narrow document columns listField =>
    obtain ⟨hdocument, hcolumns⟩ := List.forall_mem_cons.mp hp
    apply (alike.readDocument hdocument).bind_eq
    intro d rest rest' halike
    apply (halike.readColumns (hcolumns columns List.mem_cons_self)).bind_eq
    intro list _ _ _
    rfl
  | sweep document =>
    apply (alike.readDocument (hp document List.mem_cons_self)).bind_eq
    intro d _ _ _
    rfl

end

/-- Whatever a command line names, it reads nothing else: its result is settled by what is found
there. -/
theorem runCommandLine_of_alike (arguments : List String) (logFilter : Option String)
    {inputs inputs' : Inputs}
    (alike : ∀ invocation, Arguments.read? arguments = some invocation →
      AlikeAt invocation.paths inputs inputs') :
    runCommandLine arguments logFilter inputs = runCommandLine arguments logFilter inputs' := by
  rw [runCommandLine, runCommandLine]
  cases hread : Arguments.read? arguments with
  | none => rfl
  | some invocation =>
    have halike := alike invocation hread
    dsimp only
    split
    · have hsettings : ∀ path ∈ invocation.settingsPath, path ∈ invocation.paths :=
        fun path hpath => List.mem_append_left _ (Option.mem_toList.mpr hpath)
      apply (halike.readSettings hsettings).bind_eq
      intro settings rest rest' hrest
      exact hrest.run_eq settings invocation.command fun _ => List.mem_append_right _
    · rfl

theorem run_gather (inputs : Inputs) (paths : List String) :
    (gather (m := Id) (pure <| inputs.file? ·) (pure inputs.stdin) paths).run =
      ⟨fun path => (((paths.filter (!Path.isStandardInput ·)).map fun path =>
          (path, inputs.file? path)).lookup path).getD (.error Directory.noSuchFile),
        if paths.any Path.isStandardInput then inputs.stdin else ""⟩ := by
  unfold gather
  by_cases hany : paths.any Path.isStandardInput = true
  · simp [hany]
  · simp [hany]

theorem alikeAt_gather (inputs : Inputs) (paths : List String) :
    AlikeAt paths (gather (m := Id) (pure <| inputs.file? ·) (pure inputs.stdin) paths).run
      inputs := by
  rw [run_gather]
  intro path hp
  split
  · rename_i hstandard
    exact if_pos (List.any_eq_true.mpr ⟨path, hp, hstandard⟩)
  · rename_i hfile
    have hmem : path ∈ paths.filter (!Path.isStandardInput ·) := by simp [hp, hfile]
    simp only [List.lookup_graph _ hmem, Option.getD_some]

/-- A program may read everything that its arguments name before it does anything else. -/
theorem runCommandLine_gather (arguments : List String) (logFilter : Option String)
    (inputs : Inputs) :
    let paths := ((Arguments.read? arguments).map Invocation.paths).getD []
    runCommandLine arguments logFilter
        (gather (m := Id) (pure <| inputs.file? ·) (pure inputs.stdin) paths).run =
      runCommandLine arguments logFilter inputs := by
  intro paths
  apply runCommandLine_of_alike
  intro invocation hread
  have hpaths : paths = invocation.paths := by simp [paths, hread]
  rw [← hpaths]
  exact alikeAt_gather inputs paths

end Inputs

theorem Directory.file?_beside (d : Directory) {before after : List (String × String)}
    {path : String} (apart : ∀ file ∈ before ++ after, ∀ names, Path.names? path = some names →
      Path.names? file.1 ≠ some names) :
    (Directory.mk (before ++ d.files ++ after)).file? path = d.file? path := by
  unfold file?
  cases hnames : Path.names? path with
  | none => rfl
  | some names =>
    have hnone : ∀ files : List (String × String), (∀ file ∈ files, file ∈ before ++ after) →
        files.find? (fun file => Path.names? file.1 == some names) = none := by
      intro files hfiles
      apply List.find?_eq_none.mpr
      intro file hfile
      simpa using apart file (hfiles file hfile) names hnames
    have hbefore := hnone before fun _ => List.mem_append_left _
    have hafter := hnone after fun _ => List.mem_append_right _
    simp [List.find?_append, hbefore, hafter]

/-- A run in a directory does not depend on files that its arguments do not lead to. -/
theorem runCommandLine_beside (arguments : List String) (logFilter : Option String)
    (stdin : String) (d : Directory) {before after : List (String × String)}
    (apart : ∀ invocation, Arguments.read? arguments = some invocation →
      ∀ path ∈ invocation.paths, ∀ file ∈ before ++ after, ∀ names,
        Path.names? path = some names → Path.names? file.1 ≠ some names) :
    runCommandLine arguments logFilter
        ⟨(Directory.mk (before ++ d.files ++ after)).file?, stdin⟩ =
      runCommandLine arguments logFilter ⟨d.file?, stdin⟩ := by
  apply Inputs.runCommandLine_of_alike
  intro invocation hread path hpath
  split
  · rfl
  · exact d.file?_beside (apart invocation hread path hpath)

/-- Two ways to write one path. -/
example : Path.names? "./queries//list.graphql" = Path.names? "queries/list.graphql" := by
  decide

end QueryShaping
