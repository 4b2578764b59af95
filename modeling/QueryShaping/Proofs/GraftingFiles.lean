import QueryShaping.CommandLine.Run

namespace QueryShaping

namespace Inputs

/-- The text that a path gives when others have been read before it: standard input is left empty by
the first path that reads it, and a file gives the same text each time. -/
def textAfter (inputs : Inputs) (before : List String) (path : String) : Except String String :=
  if Path.isStandardInput path then
    .ok (if before.any Path.isStandardInput then "" else inputs.stdin)
  else inputs.file? path

/-- The texts that paths give when they are read in order, after others. -/
def textsAfter (inputs : Inputs) (before : List String) :
    List String → Except String (List String)
  | [] => .ok []
  | path :: rest => do
    let text ← inputs.textAfter before path
    let texts ← inputs.textsAfter (before ++ [path]) rest
    pure (text :: texts)

def after (inputs : Inputs) (before : List String) : Inputs :=
  if before.any Path.isStandardInput then { inputs with stdin := "" } else inputs

theorem read_after (inputs : Inputs) (before : List String) (path : String) :
    (inputs.after before).read path =
      match inputs.textAfter before path with
      | .ok text => .ok (text, inputs.after (before ++ [path]))
      | .error reason => .error (.unread path reason) := by
  have hlast : (before ++ [path]).any Path.isStandardInput =
      (before.any Path.isStandardInput || Path.isStandardInput path) := by
    simp
  unfold read textAfter after
  rw [hlast]
  by_cases hpath : Path.isStandardInput path = true
  · by_cases hbefore : before.any Path.isStandardInput = true
    · simp [hpath, hbefore]
    · simp [hpath, hbefore]
  · have hsame : (if before.any Path.isStandardInput then { inputs with stdin := "" }
        else inputs).file? = inputs.file? := by
      split <;> rfl
    have hno : Path.isStandardInput path = false := eq_false_of_ne_true hpath
    cases hfile : inputs.file? path with
    | error reason => simp only [hno, hsame, hfile, Bool.false_eq_true, if_false]
    | ok text => simp only [hno, hsame, hfile, Bool.or_false, Bool.false_eq_true, if_false]

/-- The second dash finds standard input empty. -/
example :
    (Inputs.mk (fun _ => .error "") "query").textsAfter [] ["-", "-/."] = .ok ["query", ""] := by
  rfl

def BaseReads (inputs : Inputs) (base : String) (d : Document) : Prop :=
  ∃ text, inputs.textAfter [] base = .ok text ∧ Document.read .usual text = .ok d

/-- A base file cannot be read, or cannot be parsed. -/
inductive BaseFails (inputs : Inputs) (base : String) : CommandError → Prop where
  | unread {reason : String} (missing : inputs.textAfter [] base = .error reason) :
      BaseFails inputs base (.unread base reason)
  | unparsed {text : String} {faults : List Diagnostic}
      (given : inputs.textAfter [] base = .ok text)
      (refused : Document.read .usual text = .error faults) :
      BaseFails inputs base (.unparsed base ⟨base, text, faults⟩)

/-- Extension files are read after others, and the texts of all of them are applied to a
document. -/
def GraftAfter (settings : GraftSettings) (inputs : Inputs) (before : List String) (d : Document)
    (paths : List String) (result : Document) : Prop :=
  ∃ texts, inputs.textsAfter before paths = .ok texts ∧
    d.graftAll settings (texts.map .source) = .ok result

/-- An extension file cannot be read after others, or cannot be applied to a document. -/
inductive ExtensionFails (settings : GraftSettings) (inputs : Inputs) (before : List String)
    (d : Document) (path : String) : CommandError → Prop where
  | unread {reason : String} (missing : inputs.textAfter before path = .error reason) :
      ExtensionFails settings inputs before d path (.unread path reason)
  | unapplied {text : String} {error : GraftError}
      (given : inputs.textAfter before path = .ok text)
      (refused : d.graftSource settings (.source text) = .error error) :
      ExtensionFails settings inputs before d path (.extension path error)

/-- One of several extension files fails, and those before it do not. `reached` are these and it. -/
inductive OneFails (settings : GraftSettings) (inputs : Inputs) (before : List String)
    (d : Document) : List String → List String → CommandError → Prop where
  | mk {done rest : List String} {path : String} {m : Document} {error : CommandError}
      (applied : GraftAfter settings inputs before d done m)
      (fails : ExtensionFails settings inputs (before ++ done) m path error) :
      OneFails settings inputs before d (done ++ path :: rest) (done ++ [path]) error

/-- A base file or one of several extension files fails, and those before it do not. `reached` are
the extension files that are come to. -/
inductive FirstFails (settings : GraftSettings) (inputs : Inputs) (base : String)
    (extensions : List String) : List String → CommandError → Prop where
  | base {error : CommandError} (fails : BaseFails inputs base error) :
      FirstFails settings inputs base extensions [] error
  | extension {d : Document} {reached : List String} {error : CommandError}
      (reads : BaseReads inputs base d)
      (fails : OneFails settings inputs [base] d extensions reached error) :
      FirstFails settings inputs base extensions reached error

section

variable {settings : GraftSettings} {inputs : Inputs} {before : List String} {d : Document}

theorem graftAfter_nil_iff {result : Document} :
    GraftAfter settings inputs before d [] result ↔ result = d := by
  simp [GraftAfter, textsAfter, Document.graftAll, eq_comm]

theorem textsAfter_cons_eq_ok_iff {path : String} {rest texts : List String} :
    inputs.textsAfter before (path :: rest) = .ok texts ↔
      ∃ text more, inputs.textAfter before path = .ok text ∧
        inputs.textsAfter (before ++ [path]) rest = .ok more ∧ texts = text :: more := by
  rw [textsAfter]
  cases inputs.textAfter before path with
  | error reason => simp [bind, Except.bind]
  | ok text =>
    cases inputs.textsAfter (before ++ [path]) rest with
    | error reason => simp [bind, Except.bind]
    | ok more => simp [bind, Except.bind, pure, Except.pure, eq_comm]

theorem graftAfter_cons_iff {path : String} {rest : List String} {result : Document} :
    GraftAfter settings inputs before d (path :: rest) result ↔
      ∃ text m, inputs.textAfter before path = .ok text ∧
        d.graftSource settings (.source text) = .ok m ∧
        GraftAfter settings inputs (before ++ [path]) m rest result := by
  constructor
  · rintro ⟨texts, htexts, hall⟩
    obtain ⟨text, more, htext, hmore, rfl⟩ := textsAfter_cons_eq_ok_iff.mp htexts
    rw [List.map_cons, Document.graftAll] at hall
    cases hfirst : d.graftSource settings (.source text) with
    | error e => simp [hfirst] at hall
    | ok m =>
      rw [hfirst] at hall
      exact ⟨text, m, htext, hfirst, more, hmore, hall⟩
  · rintro ⟨text, m, htext, hfirst, more, hmore, hall⟩
    refine ⟨text :: more, textsAfter_cons_eq_ok_iff.mpr ⟨text, more, htext, hmore, rfl⟩, ?_⟩
    rw [List.map_cons, Document.graftAll, hfirst]
    exact hall

theorem extensionFails_or_applied (settings : GraftSettings) (inputs : Inputs)
    (before : List String) (d : Document) (path : String) :
    (∃ error, ExtensionFails settings inputs before d path error) ∨
      ∃ text m, inputs.textAfter before path = .ok text ∧
        d.graftSource settings (.source text) = .ok m := by
  cases htext : inputs.textAfter before path with
  | error reason => exact .inl ⟨_, .unread htext⟩
  | ok text =>
    cases hgraft : d.graftSource settings (.source text) with
    | error error => exact .inl ⟨_, .unapplied htext hgraft⟩
    | ok m => exact .inr ⟨text, m, rfl, hgraft⟩

theorem OneFails.later {path text : String} {rest reached : List String} {m : Document}
    {error : CommandError} (given : inputs.textAfter before path = .ok text)
    (applied : d.graftSource settings (.source text) = .ok m)
    (fails : OneFails settings inputs (before ++ [path]) m rest reached error) :
    OneFails settings inputs before d (path :: rest) (path :: reached) error := by
  cases fails with
  | @mk done rest last m' _ hdone hlast =>
    rw [List.append_assoc] at hlast
    exact .mk (graftAfter_cons_iff.mpr ⟨text, m, given, applied, hdone⟩) hlast

theorem graftAfter_or_oneFails (settings : GraftSettings) (inputs : Inputs) (before : List String)
    (d : Document) (paths : List String) :
    (∃ result, GraftAfter settings inputs before d paths result) ∨
      ∃ reached error, OneFails settings inputs before d paths reached error := by
  induction paths generalizing before d with
  | nil => exact .inl ⟨d, graftAfter_nil_iff.mpr rfl⟩
  | cons path rest ih =>
    rcases extensionFails_or_applied settings inputs before d path with
      ⟨error, fails⟩ | ⟨text, m, given, applied⟩
    · have hnone : GraftAfter settings inputs before d [] d := graftAfter_nil_iff.mpr rfl
      rw [← List.append_nil before] at fails
      exact .inr ⟨[path], error, .mk hnone fails⟩
    · rcases ih (before ++ [path]) m with ⟨result, hrest⟩ | ⟨reached, error, fails⟩
      · exact .inl ⟨result, graftAfter_cons_iff.mpr ⟨text, m, given, applied, hrest⟩⟩
      · exact .inr ⟨path :: reached, error, fails.later given applied⟩

/-- Files that are applied are behind the run: it goes on with what they leave to read. -/
theorem GraftAfter.graftFiles_append {paths : List String} {m : Document}
    (applied : GraftAfter settings inputs before d paths m) (rest : List String) :
    (inputs.after before).graftFiles settings d (paths ++ rest) =
      (inputs.after (before ++ paths)).graftFiles settings m rest := by
  induction paths generalizing before d with
  | nil =>
    obtain rfl := graftAfter_nil_iff.mp applied
    rw [List.nil_append, List.append_nil]
  | cons path paths ih =>
    obtain ⟨text, m', given, first, hrest⟩ := graftAfter_cons_iff.mp applied
    have hstep : (inputs.after before).graftFiles settings d (path :: (paths ++ rest)) =
        (inputs.after (before ++ [path])).graftFiles settings m' (paths ++ rest) := by
      simp only [graftFiles, read_after, given, first]
    rw [List.cons_append, hstep, ih hrest, List.append_assoc, List.singleton_append]

theorem GraftAfter.graftFiles_eq {paths : List String} {result : Document}
    (applied : GraftAfter settings inputs before d paths result) :
    (inputs.after before).graftFiles settings d paths = .ok result := by
  rw [← List.append_nil paths, applied.graftFiles_append, graftFiles]

theorem OneFails.graftFiles_eq {paths reached : List String} {error : CommandError}
    (fails : OneFails settings inputs before d paths reached error) :
    (inputs.after before).graftFiles settings d paths = .error error := by
  cases fails with
  | mk applied fails =>
    rw [applied.graftFiles_append]
    cases fails with
    | unread missing => simp only [graftFiles, read_after, missing]
    | unapplied given refused => simp only [graftFiles, read_after, given, refused]

theorem baseReads_or_baseFails (inputs : Inputs) (base : String) :
    (∃ d, BaseReads inputs base d) ∨ ∃ error, BaseFails inputs base error := by
  cases htext : inputs.textAfter [] base with
  | error reason => exact .inr ⟨_, .unread htext⟩
  | ok text =>
    cases hread : Document.read .usual text with
    | ok d => exact .inl ⟨d, text, htext, hread⟩
    | error faults => exact .inr ⟨_, .unparsed htext hread⟩

theorem grafted_or_firstFails (settings : GraftSettings) (inputs : Inputs) (base : String)
    (extensions : List String) :
    (∃ d result, BaseReads inputs base d ∧
        GraftAfter settings inputs [base] d extensions result) ∨
      ∃ reached error, FirstFails settings inputs base extensions reached error := by
  rcases baseReads_or_baseFails inputs base with ⟨d, reads⟩ | ⟨error, fails⟩
  · rcases graftAfter_or_oneFails settings inputs [base] d extensions with
      ⟨result, applied⟩ | ⟨reached, error, fails⟩
    · exact .inl ⟨d, result, reads, applied⟩
    · exact .inr ⟨reached, error, .extension reads fails⟩
  · exact .inr ⟨[], error, .base fails⟩

theorem readDocument_eq (inputs : Inputs) (base : String) :
    inputs.readDocument base =
      match inputs.textAfter [] base with
      | .error reason => .error (.unread base reason)
      | .ok text =>
        match Document.read .usual text with
        | .ok d => .ok (d, inputs.after [base])
        | .error faults => .error (.unparsed base ⟨base, text, faults⟩) := by
  have hread : inputs.read base = _ := read_after inputs [] base
  rw [readDocument, hread]
  cases inputs.textAfter [] base with
  | error reason => rfl
  | ok text => rfl

theorem BaseReads.run_eq {settings : Settings} {base : String} {extensions : List String}
    (reads : BaseReads inputs base d) :
    Command.run settings inputs (.graft base extensions) =
      (inputs.after [base]).graftFiles settings.graft d extensions := by
  obtain ⟨text, given, parsed⟩ := reads
  rw [Command.run, readDocument_eq, given]
  simp only [parsed]
  rfl

theorem BaseFails.run_eq {settings : Settings} {base : String} {extensions : List String}
    {error : CommandError} (fails : BaseFails inputs base error) :
    Command.run settings inputs (.graft base extensions) = .error error := by
  rw [Command.run, readDocument_eq]
  cases fails with
  | unread missing =>
    rw [missing]
    rfl
  | unparsed given refused =>
    rw [given]
    simp only [refused]
    rfl

theorem FirstFails.run_eq {settings : Settings} {base : String} {extensions reached : List String}
    {error : CommandError}
    (fails : FirstFails settings.graft inputs base extensions reached error) :
    Command.run settings inputs (.graft base extensions) = .error error := by
  cases fails with
  | base fails => exact fails.run_eq
  | extension reads fails => rw [reads.run_eq, fails.graftFiles_eq]

end

/-- Inputs give the same at some paths. -/
def AlikeAt (paths : List String) (inputs inputs' : Inputs) : Prop :=
  ∀ path ∈ paths,
    if Path.isStandardInput path then inputs.stdin = inputs'.stdin
    else inputs.file? path = inputs'.file? path

section

variable {settings : GraftSettings} {inputs inputs' : Inputs} {before : List String} {d : Document}

theorem AlikeAt.textAfter_eq {paths : List String} (alike : AlikeAt paths inputs inputs')
    {path : String} (hp : path ∈ paths) :
    inputs.textAfter before path = inputs'.textAfter before path := by
  have hpath := alike path hp
  unfold textAfter
  split
  · rename_i hstandard
    rw [if_pos hstandard] at hpath
    rw [hpath]
  · rename_i hfile
    rw [if_neg hfile] at hpath
    exact hpath

theorem AlikeAt.textsAfter_eq {paths : List String} (alike : AlikeAt paths inputs inputs') :
    inputs.textsAfter before paths = inputs'.textsAfter before paths := by
  induction paths generalizing before with
  | nil => rfl
  | cons path rest ih =>
    have hrest : AlikeAt rest inputs inputs' := fun p hp => alike p (List.mem_cons_of_mem path hp)
    rw [textsAfter, textsAfter, alike.textAfter_eq List.mem_cons_self]
    simp only [ih hrest]

theorem GraftAfter.of_alike {paths : List String} {result : Document}
    (alike : AlikeAt paths inputs inputs')
    (applied : GraftAfter settings inputs before d paths result) :
    GraftAfter settings inputs' before d paths result := by
  obtain ⟨texts, htexts, hall⟩ := applied
  exact ⟨texts, alike.textsAfter_eq ▸ htexts, hall⟩

theorem ExtensionFails.of_alike {paths : List String} (alike : AlikeAt paths inputs inputs')
    {path : String} {error : CommandError} (hp : path ∈ paths)
    (fails : ExtensionFails settings inputs before d path error) :
    ExtensionFails settings inputs' before d path error := by
  cases fails with
  | unread missing => exact .unread (alike.textAfter_eq hp ▸ missing)
  | unapplied given refused => exact .unapplied (alike.textAfter_eq hp ▸ given) refused

theorem OneFails.of_alike {paths reached : List String} {error : CommandError}
    (alike : AlikeAt reached inputs inputs') (more : List String)
    (fails : OneFails settings inputs before d paths reached error) :
    OneFails settings inputs' before d (reached ++ more) reached error := by
  cases fails with
  | @mk done _ path _ _ applied fails =>
    have hdone : AlikeAt done inputs inputs' := fun p hp => alike p (List.mem_append_left _ hp)
    rw [List.append_assoc]
    exact .mk (applied.of_alike hdone) (fails.of_alike alike (by simp))

theorem BaseReads.of_alike {base : String} {paths : List String}
    (alike : AlikeAt (base :: paths) inputs inputs') (reads : BaseReads inputs base d) :
    BaseReads inputs' base d := by
  obtain ⟨text, given, parsed⟩ := reads
  exact ⟨text, alike.textAfter_eq List.mem_cons_self ▸ given, parsed⟩

theorem BaseFails.of_alike {base : String} {paths : List String} {error : CommandError}
    (alike : AlikeAt (base :: paths) inputs inputs') (fails : BaseFails inputs base error) :
    BaseFails inputs' base error := by
  have hbase : inputs.textAfter [] base = inputs'.textAfter [] base :=
    alike.textAfter_eq List.mem_cons_self
  cases fails with
  | unread missing => exact .unread (hbase ▸ missing)
  | unparsed given refused => exact .unparsed (hbase ▸ given) refused

theorem FirstFails.of_alike {base : String} {extensions reached : List String}
    {error : CommandError} (alike : AlikeAt (base :: reached) inputs inputs') (more : List String)
    (fails : FirstFails settings inputs base extensions reached error) :
    FirstFails settings inputs' base (reached ++ more) reached error := by
  cases fails with
  | base fails => exact .base (fails.of_alike alike)
  | extension reads fails =>
    have hreached : AlikeAt reached inputs inputs' :=
      fun p hp => alike p (List.mem_cons_of_mem base hp)
    exact .extension (reads.of_alike alike) (fails.of_alike hreached more)

end

end Inputs

namespace Command

open Inputs

/-- Grafting files gives a document exactly if the base is read and parsed, all the extensions are
read, and this document is what applying all their texts to the base gives. Otherwise it fails at
the first file that cannot be read, parsed or applied, and nothing that is not come to by then
plays a part. -/
theorem run_graft_as_texts (settings : Settings) (inputs : Inputs) (base : String)
    (extensions : List String) :
    (∀ result, run settings inputs (.graft base extensions) = .ok result ↔
      ∃ text d texts, inputs.textAfter [] base = .ok text ∧
        Document.read .usual text = .ok d ∧
        inputs.textsAfter [base] extensions = .ok texts ∧
        d.graftAll settings.graft (texts.map .source) = .ok result) ∧
    (∀ error, run settings inputs (.graft base extensions) = .error error ↔
      ∃ reached, FirstFails settings.graft inputs base extensions reached error) ∧
    ∀ reached error, FirstFails settings.graft inputs base extensions reached error →
      ∀ inputs' more, AlikeAt (base :: reached) inputs inputs' →
        run settings inputs' (.graft base (reached ++ more)) = .error error := by
  refine ⟨?_, ?_, ?_⟩
  · intro result
    constructor
    · intro hrun
      rcases grafted_or_firstFails settings.graft inputs base extensions with
        ⟨d, result', reads, applied⟩ | ⟨reached, error, fails⟩
      · rw [reads.run_eq, applied.graftFiles_eq] at hrun
        obtain rfl := Except.ok.inj hrun
        obtain ⟨text, given, parsed⟩ := reads
        obtain ⟨texts, htexts, hall⟩ := applied
        exact ⟨text, d, texts, given, parsed, htexts, hall⟩
      · rw [fails.run_eq] at hrun
        cases hrun
    · rintro ⟨text, d, texts, given, parsed, htexts, hall⟩
      have reads : BaseReads inputs base d := ⟨text, given, parsed⟩
      have applied : GraftAfter settings.graft inputs [base] d extensions result :=
        ⟨texts, htexts, hall⟩
      rw [reads.run_eq, applied.graftFiles_eq]
  · intro error
    constructor
    · intro hrun
      rcases grafted_or_firstFails settings.graft inputs base extensions with
        ⟨d, result, reads, applied⟩ | ⟨reached, error', fails⟩
      · rw [reads.run_eq, applied.graftFiles_eq] at hrun
        cases hrun
      · rw [fails.run_eq] at hrun
        obtain rfl := Except.error.inj hrun
        exact ⟨reached, fails⟩
    · rintro ⟨reached, fails⟩
      exact fails.run_eq
  · intro reached error fails inputs' more alike
    exact (fails.of_alike alike more).run_eq

end Command

end QueryShaping
