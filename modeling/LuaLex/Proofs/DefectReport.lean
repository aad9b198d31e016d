import Mathlib
import LuaLex.Command
import LuaLex.Proofs.LexerPlaces
import LuaLex.Proofs.ReaderLexing
import LuaLex.Proofs.Underline

/-!
# The report on defects

What `check` writes for a text: one diagnostic for each item of the text with which something is
wrong, in the order of the text, and each of them points at its item.

* `TextItem.isDefective`: what is counted as a defect.
* `underlines_of_item`: the diagnostic for a defective item points at it.
* `Command.CheckOf`: what a report on the defects of a text has to be.
* `check_points_at_defects`: the report of `check` is that.
-/

namespace LuaLex

/-! ## Defective items -/

/-- Whether something is wrong with an item: it is a malformed token, or trivia with a defect. -/
def TextItem.isDefective (item : TextItem) : Bool :=
  match item.kind with
  | .token kind => kind == .unknown
  | .trivia _ => item.defect.isSome

/-- The malformed tokens are those with a defect. -/
theorem TextItem.Sound.isDefective_eq {item : TextItem} (h : item.Sound) :
    item.isDefective = item.defect.isSome := by
  rw [isDefective]
  cases hkind : item.kind with
  | trivia kind => rfl
  | token kind =>
    have := h.unknown_iff kind hkind
    rw [Bool.eq_iff_iff, beq_iff_eq]
    exact this

/-- Behind an item with a defect every other item begins at a later byte. -/
theorem pairwise_start_lt {s : String} {tokens : List Token} (h : tokenize s = .ok tokens) :
    (itemsOf tokens).Pairwise fun i j => i.defect.isSome → i.span.start < j.span.start := by
  refine (pairwise_of_tokenize h).imp_of_mem ?_
  intro i j hi _ hij hdefect
  obtain ⟨c, w, hchars, -⟩ := (sound_of_tokenize h hi).head hdefect
  have hpos : 0 < byteLength i.chars := byteLength_pos (by simp [hchars])
  have hstop := item_stop h hi
  omega

/-- **A diagnostic at the place of a defective item points at it.** -/
theorem underlines_of_item (name : String) {s : String} {tokens : List Token}
    (h : tokenize s = .ok tokens) {item : TextItem} (hitem : item ∈ itemsOf tokens)
    (hdefect : item.defect.isSome) {d : Diagnostic} (hspan : d.span = item.span)
    (colored : Bool) :
    ∃ line w, d.Underlines (SourceFile.ofText name s) colored item.text line w := by
  obtain ⟨v, after, hs, hplace⟩ := item_place h hitem
  obtain ⟨before, part, rfl, hlocated⟩ := locatedBy_behind name hs
  have hhead := (sound_of_tokenize h hitem).head hdefect
  have hstop : d.span.stop = d.span.start + byteLength item.chars := by
    rw [hspan]
    exact item_stop h hitem
  have hlocated : (SourceFile.ofText name s).LocatedBy (.ofSpan d.span) before part
      (item.chars ++ after) := by
    rwa [hspan, hplace, Position.ofSpan_spanTo]
  have htext : String.ofList item.chars = item.text := String.ofList_toList
  exact ⟨_, _, htext ▸ Diagnostic.underlines_of_located hlocated hstop hhead colored⟩

/-! ## The command -/

namespace Command

theorem entries_foldl_report {α : Type} (f : α → Diagnostic) (as : List α) (log : DiagnosticLog) :
    (as.foldl (fun log a => log.report (f a)) log).entries.toList =
      log.entries.toList ++ as.map f := by
  induction as generalizing log with
  | nil => simp
  | cons a as ih => rw [List.foldl_cons, ih]; simp [DiagnosticLog.report]

/-- The diagnostics for the defects of items. -/
def diagnosticsOf (level : Level) (items : List TextItem) : List Diagnostic :=
  items.filterMap fun item => item.defect.map fun defect => diagnosticOf level defect item.span

/-- The diagnostics for a text are those for its items. -/
theorem entries_diagnose (level : Level) (tokens : List Token) :
    (diagnose level tokens).entries.toList = diagnosticsOf level (itemsOf tokens) := by
  rw [diagnose, entries_foldl_report, flatMap_defects, List.map_filterMap]
  simp only [Option.map_map, List.nil_append]
  rfl

/-- The diagnostic for a defective item, which points at the item. -/
structure Diagnoses (file : SourceFile) (level : Level) (colored : Bool) (item : TextItem)
    (d : Diagnostic) : Prop where
  diagnostic_eq : ∃ defect, item.defect = some defect ∧ d = diagnosticOf level defect item.span
  underlines : ∃ line w, d.Underlines file colored item.text line w

/-- One diagnostic is given for each defective item. -/
theorem forall₂_diagnoses {file : SourceFile} {level : Level} {colored : Bool}
    {items : List TextItem} (hsound : ∀ item ∈ items, item.Sound)
    (hpoints : ∀ item ∈ items, ∀ defect, item.defect = some defect →
      Diagnoses file level colored item (diagnosticOf level defect item.span)) :
    List.Forall₂ (Diagnoses file level colored) (items.filter TextItem.isDefective)
      (diagnosticsOf level items) := by
  induction items with
  | nil => exact List.Forall₂.nil
  | cons item items ih =>
    have ih := ih (fun i hi => hsound i (List.mem_cons_of_mem _ hi))
      fun i hi => hpoints i (List.mem_cons_of_mem _ hi)
    have hdefective := (hsound item List.mem_cons_self).isDefective_eq
    cases hdefect : item.defect with
    | none =>
      rw [hdefect, Option.isSome_none] at hdefective
      simpa [diagnosticsOf, hdefective, hdefect] using ih
    | some defect =>
      rw [hdefect, Option.isSome_some] at hdefective
      rw [List.filter_cons_of_pos hdefective, diagnosticsOf,
        List.filterMap_cons_some (by rw [hdefect]; rfl)]
      exact List.Forall₂.cons (hpoints item List.mem_cons_self defect hdefect) ih

theorem level_of_mem_diagnose {level : Level} {tokens : List Token} {d : Diagnostic}
    (hd : d ∈ (diagnose level tokens).entries.toList) : d.level = level := by
  rw [entries_diagnose] at hd
  obtain ⟨item, -, hitem⟩ := List.mem_filterMap.mp hd
  obtain ⟨defect, -, rfl⟩ := Option.map_eq_some_iff.mp hitem
  rfl

/-- The diagnostics for a text hold an error if there are any and defects are denied. -/
theorem hasErrors_diagnose (deny : Bool) (tokens : List Token) :
    (diagnose (if deny then .error else .warning) tokens).hasErrors = true ↔
      deny = true ∧ (diagnose (if deny then .error else .warning) tokens).entries.toList ≠ [] := by
  rw [DiagnosticLog.hasErrors, ← Array.any_toList, List.any_eq_true]
  constructor
  · rintro ⟨d, hd, herror⟩
    refine ⟨?_, List.ne_nil_of_mem hd⟩
    rw [level_of_mem_diagnose hd] at herror
    cases deny with
    | true => rfl
    | false => cases herror
  · rintro ⟨rfl, hne⟩
    obtain ⟨d, hd⟩ := List.exists_mem_of_ne_nil _ hne
    exact ⟨d, hd, by rw [level_of_mem_diagnose hd]; rfl⟩

/-- The report on the defects of a text with these tokens, for which these diagnostics are given. -/
structure CheckOf (name s : String) (deny colored : Bool) (tokens : List Token)
    (diagnostics : List Diagnostic) (report : Report) : Prop where
  tokens_eq : tokenize s = .ok tokens
  /-- There is one diagnostic for each defective item, in the same order. -/
  diagnosed : List.Forall₂
    (Diagnoses (.ofText name s) (if deny then .error else .warning) colored)
    ((itemsOf tokens).filter TextItem.isDefective) diagnostics
  increasing : diagnostics.Pairwise fun d e => d.span.start < e.span.start
  /-- The diagnostics are written one behind the other. The last line tells how many tokens there
  are, and both the last line and the result tell the number of diagnostics. -/
  report_eq : report =
    ⟨String.join (diagnostics.map fun d => d.render (.ofText name s) colored ++ "\n") ++
        (name ++ ": " ++ toString tokens.length ++ " token(s), " ++
          toString diagnostics.length ++ " defect(s)\n"),
      if deny = true ∧ diagnostics ≠ [] then .error (.defectsDenied diagnostics.length name)
      else .ok diagnostics.length⟩

/-- What `check` writes for a text, and how it ends. -/
theorem check_eq_of_tokenize {inputs : Inputs} {path s : String} {tokens : List Token}
    (hopen : inputs.open path = .ok (utf8Bytes s)) (htokens : tokenize s = .ok tokens)
    (deny colored : Bool) {diagnostics : List Diagnostic}
    (hdiagnostics :
      diagnosticsOf (if deny then .error else .warning) (itemsOf tokens) = diagnostics) :
    check inputs path deny colored =
      ⟨String.join (diagnostics.map fun d =>
          d.render (.ofText (displayName path) s) colored ++ "\n") ++
          (displayName path ++ ": " ++ toString tokens.length ++ " token(s), " ++
            toString diagnostics.length ++ " defect(s)\n"),
        if deny = true ∧ diagnostics ≠ [] then
          .error (.defectsDenied diagnostics.length (displayName path))
        else .ok diagnostics.length⟩ := by
  have hscript : tokenizeScript (.ofBytes (utf8Bytes s)) = .ok tokens :=
    (tokenizeScript_of_stream (List.append_nil _)).trans htokens
  have herrors := hasErrors_diagnose deny tokens
  rw [entries_diagnose, hdiagnostics] at herrors
  rw [check, hopen]
  simp only [hscript, reconstruct_of_tokenize htokens, ← Array.length_toList, entries_diagnose,
    hdiagnostics, checkSummary]
  by_cases h : (diagnose (if deny then .error else .warning) tokens).hasErrors = true
  · rw [if_pos h, if_pos (herrors.mp h)]
  · rw [if_neg h, if_neg (mt herrors.mpr h)]

end Command

/-- **The report on defects.** For every text, however it is malformed, `check` gives one diagnostic
for each defective item, at later and later bytes, and tells their number. Each diagnostic quotes
the line on which its item begins and underlines the first line of the item. -/
theorem check_points_at_defects {inputs : Inputs} {path s : String}
    (hopen : inputs.open path = .ok (utf8Bytes s)) (deny colored : Bool) :
    ∃ tokens diagnostics, Command.CheckOf (displayName path) s deny colored tokens diagnostics
      (Command.check inputs path deny colored) := by
  obtain ⟨tokens, htokens⟩ := exists_tokenize s
  refine ⟨tokens, Command.diagnosticsOf _ (itemsOf tokens), htokens, ?_, ?_,
    Command.check_eq_of_tokenize hopen htokens deny colored rfl⟩
  · refine Command.forall₂_diagnoses (fun item hitem => sound_of_tokenize htokens hitem) ?_
    intro item hitem defect hdefect
    have hsome : item.defect.isSome := by
      rw [hdefect]
      rfl
    exact ⟨⟨defect, hdefect, rfl⟩, underlines_of_item _ htokens hitem hsome rfl colored⟩
  · refine List.Pairwise.filterMap _ ?_ (pairwise_start_lt htokens)
    intro i j hij d hd e he
    obtain ⟨defect, hdefect, rfl⟩ := Option.map_eq_some_iff.mp hd
    obtain ⟨defect', -, rfl⟩ := Option.map_eq_some_iff.mp he
    refine hij ?_
    rw [hdefect]
    rfl

/-- In a text that is one stray symbol there is one diagnostic, at the symbol. -/
theorem check_points_at_stray_symbol :
    let inputs : Inputs := ⟨fun _ => .file (utf8Bytes "@"), utf8Bytes "@"⟩
    inputs.open "main.lua" = .ok (utf8Bytes "@") ∧
      ∃ tokens diagnostics, Command.CheckOf (displayName "main.lua") "@" true false tokens
        diagnostics (Command.check inputs "main.lua" true false) ∧
          diagnostics.map Diagnostic.span = [⟨0, 1, 1, 1⟩] := by
  intro inputs
  have hopen : inputs.open "main.lua" = .ok (utf8Bytes "@") := by
    unfold Inputs.open
    split <;> rfl
  obtain ⟨tokens, diagnostics, hcheck⟩ := check_points_at_defects hopen true false
  refine ⟨hopen, tokens, diagnostics, hcheck, ?_⟩
  have htokens : tokenize "@" = .ok
      [⟨.unknown, "@", [], ⟨0, 1, 1, 1⟩, some .unknownSymbol⟩,
        ⟨.endOfInput, "", [], ⟨1, 1, 1, 2⟩, none⟩] := by
    cbv
  obtain rfl := Except.ok.inj (hcheck.tokens_eq.symm.trans htokens)
  have hdiagnosed := hcheck.diagnosed
  cases hdiagnosed with
  | cons hd htail =>
    cases htail
    obtain ⟨defect, -, rfl⟩ := hd.diagnostic_eq
    rfl

end LuaLex
